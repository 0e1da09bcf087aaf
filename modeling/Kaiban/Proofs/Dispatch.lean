/-
A record that comes before its wait.

The router drops a record no wait is registered for.  The id of a task is known to its caller
only when the publish has resolved, and the wait is made later still, so a worker that is
fast, and a router that has subscribed for an earlier wait, lose the record between them.
Where no record is handed on that early, every wait settles with the record of its task.
-/
import Kaiban.Dispatch
import Kaiban.Proofs.Subscriptions
import Kaiban.Proofs.WaitAll

open JsString

namespace Kaiban

open KafkaRouter (answerOf handled)

/-! ### What the router does -/

namespace Router

variable {s r : Router} {w : ℕ}

theorem promise_finish_ne {x : ℕ} (h : x ≠ w) (k : JsString) (a : Settlement) :
    (s.finish k w a).promise x = s.promise x := by
  show ((s.settlements ++ [(w, a)]).find? _).map Prod.snd = _
  have hlast : [(w, a)].find? (fun e => decide (e.1 = x)) = none := by
    simpa using Ne.symm h
  rw [List.find?_append, hlast, Option.or_none]
  rfl

theorem promise_eq_none (h : ¬ s.Settled w) : s.promise w = none := by
  by_contra hsome
  exact h (exists_promise.mpr (Option.ne_none_iff_exists'.mp hsome))

theorem promise_finish_self (h : ¬ s.Settled w) (k : JsString) (a : Settlement) :
    (s.finish k w a).promise w = some a := by
  have hnone : s.settlements.find? (fun e => decide (e.1 = w)) = none :=
    Option.map_eq_none_iff.mp (promise_eq_none h)
  show ((s.settlements ++ [(w, a)]).find? _).map Prod.snd = _
  rw [List.find?_append, hnone]
  simp

/-- A record settles the wait that is registered for its task, if there is one. -/
theorem handled_spec (h : Owned s) {q : Queue} {taskId : JsString} {data : MessageData}
    {a : Settlement} (hanswer : answerOf data q = some a)
    (hstep : s.step (handled taskId data q) = some r) :
    (s.pendingResolve.get taskId = none ∧ r = s) ∨
      ∃ w, s.pendingResolve.get taskId = some w ∧ r = s.finish taskId w a := by
  cases q with
  | completed =>
      obtain rfl := Option.some.inj hstep
      obtain rfl := Option.some.inj hanswer
      unfold onCompleted
      cases hget : s.pendingResolve.get taskId with
      | none => exact .inl ⟨rfl, rfl⟩
      | some w => exact .inr ⟨w, rfl, rfl⟩
  | failed =>
      obtain rfl := Option.some.inj hstep
      obtain ⟨err, herr, rfl⟩ := Option.map_eq_some_iff.mp hanswer
      unfold onFailed
      rw [h.rejectSame]
      cases hget : s.pendingResolve.get taskId with
      | none => exact .inl ⟨rfl, rfl⟩
      | some w =>
          refine .inr ⟨w, rfl, ?_⟩
          simp only [herr]
          rfl

theorem timer_spec (h : Owned s) (hstep : s.step (.timer w) = some r) :
    ∃ wt, s.waits w = some wt ∧ ¬ s.Settled w ∧
      r = s.finish wt.taskId w (.rejected wt.timeoutError) := by
  simp only [step] at hstep
  split at hstep
  · next harmed =>
      obtain ⟨wt, hw, hopen⟩ := h.live w harmed
      rw [timer_eq h hw hopen] at hstep
      exact ⟨wt, hw, hopen, (Option.some.inj hstep).symm⟩
  · exact absurd hstep (by simp)

/-- Waits made one after another, for tasks that are not waited for yet. -/
structure WaitsFor (s r : Router) (ws : List (ℕ × Wait)) : Prop where
  owned : Owned r
  listening : Listening r
  settlements : r.settlements = s.settlements
  waits : ∀ x xt, r.waits x = some xt ↔ s.waits x = some xt ∨ (x, xt) ∈ ws
  aborted : r.aborted = s.aborted
  subscribed : (ws = [] ∧ r.subscribed = s.subscribed) ∨ ∀ q, r.subscribed q = true

theorem waits_run {ws : List (ℕ × Wait)} (h : Owned s) (hl : Listening s)
    (hquiet : ∀ sig, s.aborted sig = none)
    (hnew : ∀ p ∈ ws, ∀ x xt, s.waits x = some xt → xt.taskId ≠ p.2.taskId)
    (hids : (ws.map fun p => p.2.taskId).Nodup)
    (hrun : Steps.run step s (ws.map fun p => .wait p.1 p.2 fun _ => none) = some r) :
    WaitsFor s r ws := by
  induction ws generalizing s with
  | nil =>
      obtain rfl : s = r := by simpa using hrun
      exact ⟨h, hl, rfl, by simp, rfl, .inl ⟨rfl, rfl⟩⟩
  | cons p rest ih =>
      obtain ⟨m, hm, hrest⟩ := Steps.run_cons_some.mp hrun
      have hstep := hm
      rw [step] at hm
      split at hm
      · exact absurd hm (by simp)
      · next hfree =>
          obtain rfl := Option.some.inj hm
          have hw : s.waits p.1 = none := by simpa using hfree
          have hpending : s.pendingResolve.get p.2.taskId = none := by
            by_contra hsome
            obtain ⟨x, hx⟩ := Option.ne_none_iff_exists'.mp hsome
            obtain ⟨xt, hxt, htask, -⟩ := h.pending _ x hx
            exact hnew p List.mem_cons_self x xt hxt htask
          have haborted : s.abortedAlready p.2 = none := by
            unfold abortedAlready
            cases p.2.signal with
            | none => rfl
            | some sig => exact hquiet sig
          have hregisters := registers_wait (w := p.1) hpending haborted
          have hspec : Owned (s.wait p.1 p.2 fun _ => none) ∧
              Listening (s.wait p.1 p.2 fun _ => none) := wait_spec h hl hw _
          obtain ⟨howned, hlisten⟩ := hspec
          have hwaits (x : ℕ) (xt : Wait) : (s.wait p.1 p.2 fun _ => none).waits x = some xt ↔
              s.waits x = some xt ∨ (x, xt) = p := by
            rw [hregisters.waits]
            by_cases hx : x = p.1
            · subst hx
              show (if p.1 = p.1 then some p.2 else _) = _ ↔ _
              rw [if_pos rfl, hw, Prod.ext_iff]
              simp [eq_comm]
            · rw [numbered_waits_ne hx]
              simp [Prod.ext_iff, hx]
          obtain ⟨hhead, htail⟩ := List.nodup_cons.mp hids
          have hafter := ih howned hlisten (fun sig => by rw [hregisters.aborted, hquiet sig])
            (fun p' hp' x xt hx => ?_) htail hrest
          · refine ⟨hafter.owned, hafter.listening,
              hafter.settlements.trans hregisters.settlements, fun x xt => ?_,
              hafter.aborted.trans hregisters.aborted, .inr fun q => ?_⟩
            · rw [hafter.waits, hwaits, List.mem_cons, or_assoc]
            · rcases hafter.subscribed with ⟨-, hsame⟩ | hall
              · rw [hsame]
                exact hregisters.subscribed q
              · exact hall q
          · rcases (hwaits x xt).mp hx with hold | rfl
            · exact hnew p' (List.mem_cons_of_mem _ hp') x xt hold
            · intro hsame
              exact hhead (List.mem_map.mpr ⟨p', hp', hsame.symm⟩)

end Router

/-! ### The invariant -/

@[simp] theorem DispatchCall.wait_taskId (d : DispatchCall) (n : ℕ) :
    (d.wait n).taskId = d.taskId := by
  unfold DispatchCall.wait
  split <;> rfl

namespace Dispatching

variable {s s' : Dispatching}

/-- The waits of the router are those of the calls that wait, each under its own id. -/
structure Routed (s : Dispatching) : Prop where
  owned : s.router.Owned
  listening : s.router.Listening
  quiet : ∀ sig, s.router.aborted sig = none
  ids : (s.dispatches.map DispatchCall.taskId).Nodup
  known : ∀ w wt, s.router.waits w = some wt →
    ∃ d, s.dispatches[w]? = some d ∧ d.phase = .waiting ∧ wt = d.wait w
  subscribed : ∀ w wt, s.router.waits w = some wt → ∀ q, s.router.subscribed q = true

/-- A task has one record at most, which is with the broker or was handed on. -/
structure Brokered (s : Dispatching) : Prop where
  mail : ∀ d ∈ s.dispatches, d.inMailbox = true → d.phase ≠ .publishing
  taken : ∀ p ∈ s.published, ∃ (n : ℕ) (d : DispatchCall), s.dispatches[n]? = some d ∧
    d.taskId = p.1.taskId ∧ d.phase ≠ .publishing ∧ d.inMailbox = false
  single : (s.published.map fun p => p.1.taskId).Nodup
  records : ∀ r ∈ s.records, ∃ b, (r, b) ∈ s.published
  handed : ∀ p ∈ s.published, p.1 ∈ s.records ∨ p.1.taskId ∈ s.handed
  answers : ∀ p ∈ s.published, answerOf p.1.data p.1.queue ≠ none

/-- A wait settles by its timer or by the record of its task, and not by its timer if the
record was in time. -/
structure Answered (s : Dispatching) : Prop where
  settled : ∀ w wt, s.router.waits w = some wt → s.router.Settled w →
    wt.taskId ∈ s.timedOut ∨ ∃ p ∈ s.published, p.1.taskId = wt.taskId
  inTime : ∀ r, (r, true) ∈ s.published → ∀ w wt, s.router.waits w = some wt →
    wt.taskId = r.taskId → (r ∈ s.records ∧ ¬ s.router.Settled w) ∨
      s.router.promise w = answerOf r.data r.queue

/-- The invariant. -/
structure Kept (s : Dispatching) : Prop where
  routed : Routed s
  brokered : Brokered s
  answered : Answered s

theorem kept_init : Kept init where
  routed := ⟨Router.owned_init, Router.listening_init, fun _ => rfl, .nil,
    fun _ _ h => absurd h (by simp [init, Router.init]),
    fun _ _ h => absurd h (by simp [init, Router.init])⟩
  brokered := ⟨fun _ h => absurd h List.not_mem_nil, fun _ h => absurd h List.not_mem_nil, .nil,
    fun _ h => absurd h List.not_mem_nil, fun _ h => absurd h List.not_mem_nil,
    fun _ h => absurd h List.not_mem_nil⟩
  answered := ⟨fun _ _ h => absurd h (by simp [init, Router.init]),
    fun _ h => absurd h List.not_mem_nil⟩

/-- Two calls with one id are the same. -/
theorem Routed.same (h : Routed s) {n m : ℕ} {d e : DispatchCall} (hn : s.dispatches[n]? = some d)
    (hm : s.dispatches[m]? = some e) (hid : d.taskId = e.taskId) : n = m := by
  obtain ⟨hlt, -⟩ := List.getElem?_eq_some_iff.mp hn
  refine (List.getElem?_inj (by simpa using hlt) h.ids).mp ?_
  rw [List.getElem?_map, List.getElem?_map, hn, hm]
  exact congrArg some hid

/-- Two waits for one task are the same. -/
theorem Routed.same_wait (h : Routed s) {w x : ℕ} {wt xt : Wait}
    (hw : s.router.waits w = some wt) (hx : s.router.waits x = some xt)
    (hid : wt.taskId = xt.taskId) : w = x := by
  obtain ⟨d, hd, -, rfl⟩ := h.known w wt hw
  obtain ⟨e, he, -, rfl⟩ := h.known x xt hx
  rw [DispatchCall.wait_taskId, DispatchCall.wait_taskId] at hid
  exact h.same hd he hid

/-- Two records for one task are the same. -/
theorem Brokered.same (h : Brokered s) {p p' : BrokerRecord × Bool} (hp : p ∈ s.published)
    (hp' : p' ∈ s.published) (hid : p.1.taskId = p'.1.taskId) : p = p' :=
  List.inj_on_of_nodup_map h.single hp hp' hid

/-! ### A call goes on -/

/-- What a change of a call leaves of it. -/
structure Advances (f : DispatchCall → DispatchCall) (d : DispatchCall) : Prop where
  message : (f d).message = d.message
  awaiting : (f d).awaiting = d.awaiting
  waiting : d.phase = .waiting → (f d).phase = .waiting
  mail : (f d).inMailbox = true → (f d).phase ≠ .publishing
  taken : d.phase ≠ .publishing → d.inMailbox = false →
    (f d).phase ≠ .publishing ∧ (f d).inMailbox = false

theorem Advances.taskId {f : DispatchCall → DispatchCall} {d : DispatchCall}
    (h : Advances f d) : (f d).taskId = d.taskId := congrArg MailboxMessage.taskId h.message

theorem Advances.wait {f : DispatchCall → DispatchCall} {d : DispatchCall} (h : Advances f d)
    (n : ℕ) : (f d).wait n = d.wait n := by
  unfold DispatchCall.wait
  rw [h.awaiting, h.taskId]

/-- The calls are those of before, some of which have gone on. -/
structure Onward (s s' : Dispatching) : Prop where
  ids : s'.dispatches.map DispatchCall.taskId = s.dispatches.map DispatchCall.taskId
  mail : ∀ d ∈ s'.dispatches, d.inMailbox = true → d.phase ≠ .publishing
  waiting : ∀ (n : ℕ) (d : DispatchCall), s.dispatches[n]? = some d → d.phase = .waiting →
    ∃ d' : DispatchCall, s'.dispatches[n]? = some d' ∧ d'.phase = .waiting ∧ d'.wait n = d.wait n
  taken : ∀ (n : ℕ) (d : DispatchCall), s.dispatches[n]? = some d → d.phase ≠ .publishing →
    d.inMailbox = false → ∃ d' : DispatchCall, s'.dispatches[n]? = some d' ∧
      d'.taskId = d.taskId ∧ d'.phase ≠ .publishing ∧ d'.inMailbox = false

theorem Onward.of_map {f : ℕ → DispatchCall → DispatchCall}
    (hmail : ∀ d ∈ s.dispatches, d.inMailbox = true → d.phase ≠ .publishing)
    (hf : ∀ n d, s.dispatches[n]? = some d → f n d = d ∨ Advances (f n) d)
    (hs : ∀ n, s'.dispatches[n]? = s.dispatches[n]?.map (f n)) : Onward s s' := by
  have hget {n : ℕ} {d : DispatchCall} (hd : s.dispatches[n]? = some d) :
      s'.dispatches[n]? = some (f n d) := by
    rw [hs, hd]
    rfl
  refine ⟨List.ext_getElem? fun n => ?_, fun d hd => ?_, fun n d hd hphase => ?_,
    fun n d hd hphase htaken => ?_⟩
  · rw [List.getElem?_map, List.getElem?_map, hs]
    cases hd : s.dispatches[n]? with
    | none => rfl
    | some d =>
        rcases hf n d hd with hsame | hadv
        · simp [hsame]
        · simp [hadv.taskId]
  · obtain ⟨n, hn⟩ := List.mem_iff_getElem?.mp hd
    rw [hs] at hn
    obtain ⟨e, he, rfl⟩ := Option.map_eq_some_iff.mp hn
    rcases hf n e he with hsame | hadv
    · rw [hsame]
      exact hmail e (List.mem_of_getElem? he)
    · exact hadv.mail
  · refine ⟨_, hget hd, ?_⟩
    rcases hf n d hd with hsame | hadv
    · rw [hsame]
      exact ⟨hphase, rfl⟩
    · exact ⟨hadv.waiting hphase, hadv.wait n⟩
  · refine ⟨_, hget hd, ?_⟩
    rcases hf n d hd with hsame | hadv
    · rw [hsame]
      exact ⟨rfl, hphase, htaken⟩
    · exact ⟨hadv.taskId, hadv.taken hphase htaken⟩

theorem Onward.touch (h : Kept s) {n : ℕ} {f : DispatchCall → DispatchCall} {d : DispatchCall}
    (hd : s.dispatches[n]? = some d) (hadv : Advances f d) : Onward s (s.touch n f) := by
  refine Onward.of_map (f := fun m e => if m = n then f e else e) h.brokered.mail
    (fun m e he => ?_) fun m => ?_
  · by_cases hm : m = n
    · subst hm
      obtain rfl : e = d := Option.some.inj (he.symm.trans hd)
      refine .inr ?_
      have hfun : (fun e => if m = m then f e else e) = f := by simp
      rw [hfun]
      exact hadv
    · exact .inl (if_neg hm)
  · show (s.dispatches.modify n f)[m]? = _
    rw [List.getElem?_modify]
    cases s.dispatches[m]? <;> simp [eq_comm]

/-- A state that differs in how far its calls are. -/
theorem Kept.onward (h : Kept s) (hon : Onward s s') (hrouter : s'.router = s.router)
    (hpublished : s'.published = s.published) (hrecords : s'.records = s.records)
    (hhanded : s'.handed = s.handed) (htimed : s'.timedOut = s.timedOut) : Kept s' where
  routed := by
    refine ⟨hrouter ▸ h.routed.owned, hrouter ▸ h.routed.listening, hrouter ▸ h.routed.quiet,
      hon.ids ▸ h.routed.ids, fun w wt hw => ?_, hrouter ▸ h.routed.subscribed⟩
    rw [hrouter] at hw
    obtain ⟨d, hd, hphase, rfl⟩ := h.routed.known w wt hw
    obtain ⟨d', hd', hphase', hwait⟩ := hon.waiting w d hd hphase
    exact ⟨d', hd', hphase', hwait.symm⟩
  brokered := by
    refine ⟨hon.mail, fun p hp => ?_, hpublished ▸ h.brokered.single, ?_, ?_,
      hpublished ▸ h.brokered.answers⟩
    · obtain ⟨n, d, hd, hid, hphase, htaken⟩ := h.brokered.taken p (hpublished ▸ hp)
      obtain ⟨d', hd', hid', hrest⟩ := hon.taken n d hd hphase htaken
      exact ⟨n, d', hd', hid'.trans hid, hrest⟩
    · rw [hrecords, hpublished]
      exact h.brokered.records
    · rw [hpublished, hrecords, hhanded]
      exact h.brokered.handed
  answered := by
    constructor
    · rw [hrouter, htimed, hpublished]
      exact h.answered.settled
    · rw [hrouter, hrecords, hpublished]
      exact h.answered.inTime

/-- A new call has an id of its own. -/
theorem Kept.dispatches (h : Kept s) {d : DispatchCall}
    (hnew : d.taskId ∉ s.dispatches.map DispatchCall.taskId) (hmail : d.inMailbox = false) :
    Kept { s with dispatches := s.dispatches ++ [d] } := by
  have hget {n : ℕ} {e : DispatchCall} (he : s.dispatches[n]? = some e) :
      (s.dispatches ++ [d])[n]? = some e := by
    obtain ⟨hlt, -⟩ := List.getElem?_eq_some_iff.mp he
    rw [List.getElem?_append_left hlt, he]
  refine ⟨⟨h.routed.owned, h.routed.listening, h.routed.quiet, ?_, fun w wt hw => ?_,
    h.routed.subscribed⟩, ⟨fun e he hin => ?_, fun p hp => ?_, h.brokered.single,
    h.brokered.records, h.brokered.handed, h.brokered.answers⟩, h.answered.settled,
    h.answered.inTime⟩
  · show ((s.dispatches ++ [d]).map DispatchCall.taskId).Nodup
    rw [List.map_append, List.map_singleton]
    refine h.routed.ids.append (List.nodup_singleton _) fun x hx hd => ?_
    rw [List.mem_singleton.mp hd] at hx
    exact hnew hx
  · obtain ⟨e, he, hphase, hwt⟩ := h.routed.known w wt hw
    exact ⟨e, hget he, hphase, hwt⟩
  · rcases List.mem_append.mp he with hold | hlast
    · exact h.brokered.mail e hold hin
    · rw [List.mem_singleton.mp hlast, hmail] at hin
      exact absurd hin (by simp)
  · obtain ⟨n, e, he, hrest⟩ := h.brokered.taken p hp
    exact ⟨n, e, hget he, hrest⟩

/-- A worker publishes the one record of a task. -/
theorem Kept.processes (h : Kept s) {n : ℕ} {d : DispatchCall} {r : BrokerRecord}
    (hd : s.dispatches[n]? = some d) (hid : d.taskId = r.taskId) (hphase : d.phase ≠ .publishing)
    (hmail : d.inMailbox = false) (hfresh : ∀ p ∈ s.published, p.1.taskId ≠ r.taskId)
    (hanswer : answerOf r.data r.queue ≠ none) :
    Kept { s with
      records := s.records ++ [r]
      published := s.published ++ [(r, decide (r.taskId ∉ s.timedOut))] } := by
  have hold {r' : BrokerRecord} (hr : r' ∈ s.records) : r' ∈ s.records ++ [r] :=
    List.mem_append_left _ hr
  refine ⟨⟨h.routed.owned, h.routed.listening, h.routed.quiet, h.routed.ids, h.routed.known,
    h.routed.subscribed⟩, ⟨h.brokered.mail, fun p hp => ?_, ?_, fun r' hr' => ?_, fun p hp => ?_,
    fun p hp => ?_⟩, fun w wt hw hset => ?_, fun r' hr' w wt hw htask => ?_⟩
  · rcases List.mem_append.mp hp with hp | hp
    · exact h.brokered.taken p hp
    · rw [List.mem_singleton.mp hp]
      exact ⟨n, d, hd, hid, hphase, hmail⟩
  · show ((s.published ++ [_]).map fun (p : BrokerRecord × Bool) => p.1.taskId).Nodup
    rw [List.map_append, List.map_singleton]
    refine h.brokered.single.append (List.nodup_singleton _) fun x hx hlast => ?_
    obtain ⟨p, hp, rfl⟩ := List.mem_map.mp hx
    exact hfresh p hp (List.mem_singleton.mp hlast)
  · rcases List.mem_append.mp hr' with hr' | hr'
    · obtain ⟨b, hb⟩ := h.brokered.records r' hr'
      exact ⟨b, List.mem_append_left _ hb⟩
    · rw [List.mem_singleton.mp hr']
      exact ⟨_, List.mem_append_right _ (List.mem_singleton_self _)⟩
  · rcases List.mem_append.mp hp with hp | hp
    · exact (h.brokered.handed p hp).imp_left hold
    · rw [List.mem_singleton.mp hp]
      exact .inl (List.mem_append_right _ (List.mem_singleton_self _))
  · rcases List.mem_append.mp hp with hp | hp
    · exact h.brokered.answers p hp
    · rw [List.mem_singleton.mp hp]
      exact hanswer
  · refine (h.answered.settled w wt hw hset).imp_right ?_
    rintro ⟨p, hp, htask⟩
    exact ⟨p, List.mem_append_left _ hp, htask⟩
  · rcases List.mem_append.mp hr' with hr' | hr'
    · exact (h.answered.inTime r' hr' w wt hw htask).imp_left fun hopen => ⟨hold hopen.1, hopen.2⟩
    · -- The wait has not timed out, and there was no record to settle it.
      obtain ⟨rfl, htime⟩ := Prod.mk.inj (List.mem_singleton.mp hr')
      refine .inl ⟨List.mem_append_right _ (List.mem_singleton_self _), fun hset => ?_⟩
      rcases h.answered.settled w wt hw hset with hlate | ⟨p, hp, hsame⟩
      · rw [htask] at hlate
        exact of_decide_eq_true htime.symm hlate
      · exact hfresh p hp (hsame.trans htask)

/-- The wait that settles is the one of the record's task. -/
theorem Kept.finish (h : Kept s) {k : JsString} {w : ℕ} {wt : Wait} {a : Settlement}
    (hw : s.router.waits w = some wt) (hk : wt.taskId = k) (hopen : ¬ s.router.Settled w) :
    Routed { s with router := s.router.finish k w a } := by
  have hget : s.router.pendingResolve.get k = some w := by
    rw [← hk]
    exact h.routed.owned.owns w wt hw hopen
  refine ⟨h.routed.owned.finish hget a,
    h.routed.listening.advance (Router.advances_finish _ _ _ _), h.routed.quiet, h.routed.ids,
    h.routed.known, fun x xt hx q => ?_⟩
  have hsame : (s.router.finish k w a).subscribed = s.router.subscribed :=
    (Router.subscribed_settle _ _ _).trans (Router.subscribed_clearPending _ _)
  show (s.router.finish k w a).subscribed q = true
  rw [hsame]
  exact h.routed.subscribed x xt hx q

/-- What is not handed on stays with the broker. -/
theorem mem_eraseIdx {l : List BrokerRecord} {i : ℕ} {r r' : BrokerRecord} (hr : l[i]? = some r)
    (hr' : r' ∈ l) (hne : r' ≠ r) : r' ∈ l.eraseIdx i := by
  obtain ⟨j, hj⟩ := List.mem_iff_getElem?.mp hr'
  refine List.mem_eraseIdx_iff_getElem?.mpr ⟨j, ?_, hj⟩
  rintro rfl
  exact hne (Option.some.inj (hj.symm.trans hr))

/-- **A record that is handed on settles the wait for its task.** -/
theorem Kept.hands (h : Kept s) {i : ℕ} {r : BrokerRecord} {router : Router}
    (hr : s.records[i]? = some r)
    (hstep : s.router.step (handled r.taskId r.data r.queue) = some router) :
    Kept { s with
      router := router
      records := s.records.eraseIdx i
      handed := s.handed ++ [r.taskId] } := by
  obtain ⟨b, hb⟩ := h.brokered.records r (List.mem_of_getElem? hr)
  obtain ⟨a, ha⟩ := Option.ne_none_iff_exists'.mp (h.brokered.answers _ hb)
  have hbrokered : Brokered { s with
      router := router
      records := s.records.eraseIdx i
      handed := s.handed ++ [r.taskId] } := by
    refine ⟨h.brokered.mail, h.brokered.taken, h.brokered.single,
      fun r' hr' => h.brokered.records r' (List.mem_of_mem_eraseIdx hr'), fun p hp => ?_,
      h.brokered.answers⟩
    rcases h.brokered.handed p hp with hin | hdone
    · by_cases hsame : p.1 = r
      · rw [hsame]
        exact .inr (List.mem_append_right _ (List.mem_singleton_self _))
      · exact .inl (mem_eraseIdx hr hin hsame)
    · exact .inr (List.mem_append_left _ hdone)
  have hsame {r' : BrokerRecord} (hr' : (r', true) ∈ s.published)
      (hid : r'.taskId = r.taskId) : r' = r :=
    congrArg Prod.fst (h.brokered.same hr' hb hid)
  rcases Router.handled_spec h.routed.owned ha hstep with ⟨hnone, rfl⟩ | ⟨w, hget, rfl⟩
  · refine ⟨⟨h.routed.owned, h.routed.listening, h.routed.quiet, h.routed.ids, h.routed.known,
      h.routed.subscribed⟩, hbrokered, h.answered.settled, fun r' hr' x xt hx htask => ?_⟩
    rcases h.answered.inTime r' hr' x xt hx htask with ⟨hin, hopen⟩ | hanswered
    · by_cases hid : r'.taskId = r.taskId
      · have hentry := h.routed.owned.owns x xt hx hopen
        rw [htask, hid, hnone] at hentry
        exact absurd hentry (by simp)
      · exact .inl ⟨mem_eraseIdx hr hin fun heq => hid (congrArg _ heq), hopen⟩
    · exact .inr hanswered
  · obtain ⟨wt, hw, hk, hopen⟩ := h.routed.owned.pending r.taskId w hget
    have hrouted := h.finish hw hk hopen (a := a)
    refine ⟨⟨hrouted.owned, hrouted.listening, hrouted.quiet, hrouted.ids, hrouted.known,
      hrouted.subscribed⟩, hbrokered, fun x xt hx hset => ?_, fun r' hr' x xt hx htask => ?_⟩
    · rcases Router.settled_finish.mp hset with hold | rfl
      · exact h.answered.settled x xt hx hold
      · obtain rfl : wt = xt := Option.some.inj (hw.symm.trans hx)
        exact .inr ⟨_, hb, hk.symm⟩
    · by_cases hxw : x = w
      · subst hxw
        obtain rfl : wt = xt := Option.some.inj (hw.symm.trans hx)
        rw [hsame hr' (htask.symm.trans hk), ha]
        exact .inr (Router.promise_finish_self hopen _ _)
      · have hid : r'.taskId ≠ r.taskId := fun hid =>
          hxw (h.routed.same_wait hx hw (htask.trans (hid.trans hk.symm)))
        rcases h.answered.inTime r' hr' x xt hx htask with ⟨hin, hstill⟩ | hanswered
        · refine .inl ⟨mem_eraseIdx hr hin fun heq => hid (congrArg _ heq), fun hset => ?_⟩
          rcases Router.settled_finish.mp hset with hold | heq
          · exact hstill hold
          · exact hxw heq
        · exact .inr ((Router.promise_finish_ne hxw _ _).trans hanswered)

/-- **A wait times out only without a record that was in time.** -/
theorem Kept.timer (h : Kept s) {n : ℕ} {d : DispatchCall} {router : Router}
    (hd : s.dispatches[n]? = some d) (hnone : ∀ r ∈ s.records, r.taskId ≠ d.taskId)
    (hstep : s.router.step (.timer n) = some router) :
    Kept { s with router := router, timedOut := s.timedOut ++ [d.taskId] } := by
  obtain ⟨wt, hw, hopen, rfl⟩ := Router.timer_spec h.routed.owned hstep
  have hk : wt.taskId = d.taskId := by
    obtain ⟨e, he, -, rfl⟩ := h.routed.known n wt hw
    obtain rfl : d = e := Option.some.inj (hd.symm.trans he)
    exact d.wait_taskId n
  have hrouted := h.finish hw rfl hopen (a := .rejected wt.timeoutError)
  refine ⟨⟨hrouted.owned, hrouted.listening, hrouted.quiet, hrouted.ids, hrouted.known,
    hrouted.subscribed⟩, ⟨h.brokered.mail, h.brokered.taken, h.brokered.single,
    h.brokered.records, h.brokered.handed, h.brokered.answers⟩, fun x xt hx hset => ?_,
    fun r hr x xt hx htask => ?_⟩
  · rcases Router.settled_finish.mp hset with hold | rfl
    · exact (h.answered.settled x xt hx hold).imp_left (List.mem_append_left _)
    · obtain rfl : wt = xt := Option.some.inj (hw.symm.trans hx)
      exact .inl (List.mem_append_right _ (by simp [hk]))
  · by_cases hxn : x = n
    · subst hxn
      obtain rfl : wt = xt := Option.some.inj (hw.symm.trans hx)
      exfalso
      rcases h.answered.inTime r hr x wt hx htask with ⟨hin, -⟩ | hanswered
      · exact hnone r hin (htask.symm.trans hk)
      · rw [Router.promise_eq_none hopen] at hanswered
        exact h.brokered.answers _ hr hanswered.symm
    · rcases h.answered.inTime r hr x xt hx htask with ⟨hin, hstill⟩ | hanswered
      · refine .inl ⟨hin, fun hset => ?_⟩
        rcases Router.settled_finish.mp hset with hold | heq
        · exact hstill hold
        · exact hxn heq
      · exact .inr ((Router.promise_finish_ne hxn _ _).trans hanswered)

/-! ### The waits of a caller -/

theorem mem_waitsOf {caller n : ℕ} {wt : Wait} :
    (n, wt) ∈ s.waitsOf caller ↔ ∃ d, s.dispatches[n]? = some d ∧ awaited caller d = true ∧
      wt = d.wait n := by
  unfold waitsOf
  rw [List.mem_map]
  constructor
  · rintro ⟨⟨d, m⟩, hmem, hp⟩
    obtain ⟨hzip, hawaited⟩ := List.mem_filter.mp hmem
    obtain ⟨rfl, rfl⟩ := Prod.mk.inj hp
    exact ⟨d, List.mem_zipIdx_iff_getElem?.mp hzip, hawaited, rfl⟩
  · rintro ⟨d, hd, hawaited, rfl⟩
    exact ⟨(d, n), List.mem_filter.mpr ⟨List.mem_zipIdx_iff_getElem?.mpr hd, hawaited⟩, rfl⟩

theorem Routed.waitsOf_nodup (h : Routed s) (caller : ℕ) :
    ((s.waitsOf caller).map fun p => p.2.taskId).Nodup := by
  have hids : (s.waitsOf caller).map (fun p => p.2.taskId)
      = (s.dispatches.zipIdx.filter fun p => awaited caller p.1).map fun p => p.1.taskId := by
    unfold waitsOf
    rw [List.map_map]
    exact List.map_congr_left fun p _ => p.1.wait_taskId p.2
  have hall : s.dispatches.zipIdx.map (fun p => p.1.taskId)
      = s.dispatches.map DispatchCall.taskId := by
    have hfst := List.zipIdx_map_fst 0 s.dispatches
    conv_rhs => rw [← hfst]
    rw [List.map_map]
    rfl
  rw [hids]
  refine List.Nodup.sublist (List.Sublist.map _ List.filter_sublist) ?_
  rw [hall]
  exact h.ids

/-- No record that was in time has been handed on before the wait for its task. -/
def Unheard (s : Dispatching) (caller : ℕ) : Prop :=
  ∀ d ∈ s.dispatches, awaited caller d = true → d.taskId ∉ s.handed

/-- The calls of the caller wait. -/
def setWaiting (s : Dispatching) (caller : ℕ) : Dispatching :=
  { s with
    dispatches := s.dispatches.map fun d =>
      if awaited caller d then { d with phase := .waiting } else d }

theorem Onward.waits (h : Kept s) (caller : ℕ) : Onward s (s.setWaiting caller) := by
  refine Onward.of_map
    (f := fun _ d => if awaited caller d then { d with phase := .waiting } else d)
    h.brokered.mail (fun n d hd => ?_) fun n => List.getElem?_map
  cases hawaited : awaited caller d with
  | false => exact .inl (if_neg (by simp))
  | true =>
      refine .inr ?_
      constructor <;> simp [hawaited]

/-- **The waits of a caller are registered, and none of their records is lost.** -/
theorem Kept.waits (h : Kept s) {caller : ℕ} {router : Router} (hunheard : Unheard s caller)
    (hrun : Steps.run Router.step s.router
      ((s.waitsOf caller).map fun w => .wait w.1 w.2 fun _ => none) = some router) :
    Kept { s.setWaiting caller with router := router } := by
  have hon := h.onward (Onward.waits h caller) rfl rfl rfl rfl rfl
  have hafter := Router.waits_run h.routed.owned h.routed.listening h.routed.quiet
    (fun p hp x xt hx hsame => ?_) (h.routed.waitsOf_nodup caller) hrun
  · have hnew {w : ℕ} {wt : Wait} (hw : (w, wt) ∈ s.waitsOf caller) :
        ∃ d, s.dispatches[w]? = some d ∧ awaited caller d = true ∧ wt = d.wait w ∧
          ¬ s.router.Settled w := by
      obtain ⟨d, hd, hawaited, hwt⟩ := mem_waitsOf.mp hw
      refine ⟨d, hd, hawaited, hwt, fun hset => ?_⟩
      obtain ⟨xt, hx⟩ := h.routed.owned.known w hset
      obtain ⟨e, he, hphase, -⟩ := h.routed.known w xt hx
      obtain rfl := Option.some.inj (hd.symm.trans he)
      have hreturned := (of_decide_eq_true hawaited).2
      exact absurd (hreturned.symm.trans hphase) (by decide)
    have hsettled (w : ℕ) : router.Settled w ↔ s.router.Settled w := by
      unfold Router.Settled
      rw [hafter.settlements]
    refine ⟨⟨hafter.owned, hafter.listening, fun sig => ?_, hon.routed.ids, fun w wt hw => ?_,
      fun w wt hw q => ?_⟩, ⟨hon.brokered.mail, hon.brokered.taken, h.brokered.single,
      h.brokered.records, h.brokered.handed, h.brokered.answers⟩, fun w wt hw hset => ?_,
      fun r hr w wt hw htask => ?_⟩
    · show router.aborted sig = none
      rw [hafter.aborted]
      exact h.routed.quiet sig
    · rcases (hafter.waits w wt).mp hw with hold | hcall
      · exact hon.routed.known w wt hold
      · obtain ⟨d, hd, hawaited, rfl, -⟩ := hnew hcall
        refine ⟨{ d with phase := .waiting }, ?_, rfl, rfl⟩
        show (s.dispatches.map _)[w]? = _
        rw [List.getElem?_map, hd]
        simp [hawaited]
    · rcases hafter.subscribed with ⟨hnil, hsame⟩ | hall
      · have hold := ((hafter.waits w wt).mp hw).resolve_right (by simp [hnil])
        show router.subscribed q = true
        rw [hsame]
        exact h.routed.subscribed w wt hold q
      · exact hall q
    · rcases (hafter.waits w wt).mp hw with hold | hcall
      · exact h.answered.settled w wt hold ((hsettled w).mp hset)
      · obtain ⟨-, -, -, -, hopen⟩ := hnew hcall
        exact absurd ((hsettled w).mp hset) hopen
    · rcases (hafter.waits w wt).mp hw with hold | hcall
      · refine (h.answered.inTime r hr w wt hold htask).imp (fun hin => ?_) fun hanswered => ?_
        · exact ⟨hin.1, fun hset => hin.2 ((hsettled w).mp hset)⟩
        · show router.promise w = _
          unfold Router.promise at hanswered ⊢
          rw [hafter.settlements]
          exact hanswered
      · obtain ⟨d, hd, hawaited, rfl, hopen⟩ := hnew hcall
        rw [DispatchCall.wait_taskId] at htask
        refine .inl ⟨?_, fun hset => hopen ((hsettled w).mp hset)⟩
        refine (h.brokered.handed _ hr).resolve_right fun hhanded => ?_
        exact hunheard d (List.mem_of_getElem? hd) hawaited (htask ▸ hhanded)
  · -- A task that is waited for is not one the caller has only just the id of.
    obtain ⟨d, hd, hawaited, hwt⟩ := mem_waitsOf.mp (show (p.1, p.2) ∈ s.waitsOf caller from hp)
    obtain ⟨e, he, hphase, rfl⟩ := h.routed.known x xt hx
    rw [hwt, DispatchCall.wait_taskId, DispatchCall.wait_taskId] at hsame
    have hindex := h.routed.same he hd hsame
    rw [hindex] at he
    obtain rfl := Option.some.inj (hd.symm.trans he)
    have hreturned := (of_decide_eq_true hawaited).2
    exact absurd (hreturned.symm.trans hphase) (by decide)

/-! ### The runs -/

/-- No record is handed on before the wait for its task, and the error of a record of the
failed queue has a text. -/
def InTurn (s : Dispatching) : DispatchEvent → Prop
  | .waits caller => Unheard s caller
  | .processes _ q data => answerOf data q ≠ none
  | _ => True

instance (s : Dispatching) : DecidablePred (InTurn s)
  | .waits caller =>
      inferInstanceAs (Decidable (∀ d ∈ s.dispatches, awaited caller d = true →
        d.taskId ∉ s.handed))
  | .processes _ q data => inferInstanceAs (Decidable (answerOf data q ≠ none))
  | .dispatches .. | .takesEffect _ | .returns _ | .throws _ | .hands _ | .timer _ =>
      inferInstanceAs (Decidable True)

/-- An event of a call finds the call as it has to be. -/
theorem call_of_step {n : ℕ} {P : DispatchCall → Prop} [DecidablePred P]
    {f : DispatchCall → Dispatching}
    (hstep : (match s.dispatches[n]? with
      | some d => if P d then some (f d) else none
      | none => none) = some s') : ∃ d, s.dispatches[n]? = some d ∧ P d ∧ s' = f d := by
  split at hstep
  · next d hd =>
      split at hstep
      · next hp => exact ⟨d, hd, hp, (Option.some.inj hstep).symm⟩
      · exact absurd hstep (by simp)
  · exact absurd hstep (by simp)

theorem kept_step {e : DispatchEvent} (h : Kept s) (hturn : InTurn s e)
    (hstep : step s e = some s') : Kept s' := by
  cases e with
  | dispatches caller taskId agentId params awaiting =>
      rw [step] at hstep
      split at hstep
      · exact absurd hstep (by simp)
      · next hnew =>
          obtain rfl := Option.some.inj hstep
          exact h.dispatches hnew rfl
  | takesEffect n =>
      obtain ⟨d, hd, hphase, rfl⟩ := call_of_step hstep
      refine h.onward (Onward.touch h hd ?_) rfl rfl rfl rfl rfl
      constructor <;> simp [hphase]
  | returns n =>
      obtain ⟨d, hd, hphase, rfl⟩ := call_of_step hstep
      refine h.onward (Onward.touch h hd ?_) rfl rfl rfl rfl rfl
      constructor <;> simp [hphase]
  | throws n =>
      obtain ⟨d, hd, hphase, rfl⟩ := call_of_step hstep
      refine h.onward (Onward.touch h hd ?_) rfl rfl rfl rfl rfl
      rcases hphase with hphase | hphase <;> constructor <;> simp [hphase]
  | processes n q data =>
      obtain ⟨d, hd, hmail, rfl⟩ := call_of_step hstep
      have hphase := h.brokered.mail d (List.mem_of_getElem? hd) hmail
      have hadv : Advances (fun d => { d with inMailbox := false }) d :=
        ⟨rfl, rfl, id, by simp, fun hnot _ => ⟨hnot, rfl⟩⟩
      have htouched := h.onward (Onward.touch h hd hadv) rfl rfl rfl rfl rfl
      refine htouched.processes (d := { d with inMailbox := false }) (n := n) ?_ rfl
        hphase rfl (fun p hp hid => ?_) hturn
      · show (s.dispatches.modify n _)[n]? = _
        rw [List.getElem?_modify, hd]
        simp
      · obtain ⟨m, e, he, htask, -, htaken⟩ := h.brokered.taken p hp
        have hindex := h.routed.same he hd (htask.trans hid)
        rw [hindex] at he
        obtain rfl := Option.some.inj (hd.symm.trans he)
        exact absurd (hmail.symm.trans htaken) (by simp)
  | hands i =>
      rw [step] at hstep
      split at hstep
      · next r hr =>
          split at hstep
          · obtain ⟨router, hrouter, rfl⟩ := Option.map_eq_some_iff.mp hstep
            exact h.hands hr hrouter
          · exact absurd hstep (by simp)
      · exact absurd hstep (by simp)
  | waits caller =>
      rw [step] at hstep
      split at hstep
      · exact absurd hstep (by simp)
      · obtain ⟨router, hrun, rfl⟩ := Option.map_eq_some_iff.mp hstep
        exact h.waits hturn hrun
  | timer n =>
      rw [step] at hstep
      split at hstep
      · next d hd =>
          split at hstep
          · exact absurd hstep (by simp)
          · next hnone =>
              obtain ⟨router, hrouter, rfl⟩ := Option.map_eq_some_iff.mp hstep
              exact h.timer hd (by simpa using hnone) hrouter
      · exact absurd hstep (by simp)

/-- A wait for a task whose record was published in time has settled with it, or the broker
can hand it on, which settles the wait with it. -/
def Sound (s : Dispatching) : Prop :=
  ∀ r, (r, true) ∈ s.published → ∀ w wt, s.router.waits w = some wt → wt.taskId = r.taskId →
    ∃ a, answerOf r.data r.queue = some a ∧ (s.router.promise w = some a ∨
      s.router.promise w = none ∧ ∃ i s', step s (.hands i) = some s' ∧
        s'.router.promise w = some a)

theorem Kept.sound (h : Kept s) : Sound s := by
  intro r hr w wt hw htask
  obtain ⟨a, ha⟩ := Option.ne_none_iff_exists'.mp (h.brokered.answers _ hr)
  refine ⟨a, ha, ?_⟩
  rcases h.answered.inTime r hr w wt hw htask with ⟨hin, hopen⟩ | hanswered
  · obtain ⟨i, hi⟩ := List.mem_iff_getElem?.mp hin
    have hget : s.router.pendingResolve.get r.taskId = some w := by
      rw [← htask]
      exact h.routed.owned.owns w wt hw hopen
    obtain ⟨router, hrouter⟩ : ∃ router,
        s.router.step (handled r.taskId r.data r.queue) = some router := by
      cases r.queue <;> exact ⟨_, rfl⟩
    refine .inr ⟨Router.promise_eq_none hopen, i, { s with
      router := router
      records := s.records.eraseIdx i
      handed := s.handed ++ [r.taskId] }, ?_, ?_⟩
    · rw [step, hi]
      dsimp only
      rw [if_pos (h.routed.subscribed w wt hw r.queue), hrouter]
      rfl
    · show router.promise w = some a
      rcases Router.handled_spec h.routed.owned ha hrouter with ⟨hnone, -⟩ | ⟨x, hx, rfl⟩
      · exact absurd (hnone.symm.trans hget) (by simp)
      · obtain rfl := Option.some.inj (hget.symm.trans hx)
        exact Router.promise_finish_self hopen _ _
  · exact .inl (hanswered.trans ha)

/-- **A wait settles with the record of its task**, in every run in which no record is handed
on before the wait for its task is registered. -/
theorem waits_answered {es : List DispatchEvent} (hrun : Steps.run step init es = some s)
    (hturn : Steps.Along step InTurn init es) : Sound s := by
  have hkept : Kept s :=
    Steps.run_invariant (P := Kept) (fun _ _ _ h hc hstep => kept_step h hc hstep) kept_init
      hturn hrun
  exact hkept.sound

/-! ### Two runs -/

def plainParams : DispatchParams := ⟨js "do it", none, none, none⟩

def plainAwaiting : Awaiting := ⟨false, js "5", js "step", none⟩

/-- A task is dispatched, and its publish resolves. -/
def dispatched (n : ℕ) (taskId : JsString) : List DispatchEvent :=
  [.dispatches n taskId (js "writer") plainParams plainAwaiting, .takesEffect n, .returns n]

def doneData : MessageData := [(js "result", .str (js "done"))]

/-- A record is published before the first wait, which subscribes to its queue. -/
def lateSubscription : List DispatchEvent :=
  dispatched 0 (js "a") ++ [.processes 0 .completed doneData, .waits 0, .hands 0]

theorem waits_answered_late : ∃ s, Steps.run step init lateSubscription = some s ∧
    s.router.promise 0 = some (.resolved (js "done")) ∧ Sound s := by
  have hany : (Steps.run step init lateSubscription).any (fun s =>
      s.router.promise 0 = some (.resolved (js "done"))) = true := by
    decide +kernel
  obtain ⟨s, hrun, hpromise⟩ := (Option.any_eq_true _ _).mp hany
  have hturn : Steps.Along step InTurn init lateSubscription := by decide +kernel
  exact ⟨s, hrun, of_decide_eq_true hpromise, waits_answered hrun hturn⟩

/-- The router waits for a task already, and a worker is fast with the next one. -/
def fastWorker : List DispatchEvent :=
  dispatched 0 (js "a") ++ [.waits 0,
    .dispatches 1 (js "b") (js "writer") plainParams plainAwaiting, .takesEffect 1,
    .processes 1 .completed doneData, .hands 0, .returns 1, .waits 1, .timer 1]

/-- The record is dropped, and the wait times out. -/
theorem fast_record_lost : ∃ s, Steps.run step init fastWorker = some s ∧
    s.router.promise 1 = some (.rejected (Wait.timeoutError
      ⟨js "b", js "5", js "step", none⟩)) ∧ ¬ Sound s := by
  have hany : (Steps.run step init fastWorker).any (fun s =>
      decide (s.router.promise 1 = some (.rejected (Wait.timeoutError
        ⟨js "b", js "5", js "step", none⟩))) &&
      ((s.router.waits 1).any (fun wt => decide (wt.taskId = js "b")) &&
        s.published.any fun p => decide (p.2 = true ∧ p.1.taskId = js "b" ∧
          answerOf p.1.data p.1.queue = some (.resolved (js "done"))))) = true := by
    decide +kernel
  obtain ⟨s, hrun, hfacts⟩ := (Option.any_eq_true _ _).mp hany
  obtain ⟨hpromise, hrest⟩ := Bool.and_eq_true_iff.mp hfacts
  obtain ⟨hwaits, hpublished⟩ := Bool.and_eq_true_iff.mp hrest
  have hpromise := of_decide_eq_true hpromise
  obtain ⟨wt, hw, htask⟩ := (Option.any_eq_true _ _).mp hwaits
  obtain ⟨⟨r, b⟩, hr, hrecord⟩ := List.any_eq_true.mp hpublished
  obtain ⟨htime, hid, hanswer⟩ := of_decide_eq_true hrecord
  refine ⟨s, hrun, hpromise, fun hsound => ?_⟩
  dsimp only at htime hid hanswer
  rw [htime] at hr
  obtain ⟨a, ha, hsettled⟩ := hsound r hr 1 wt hw ((of_decide_eq_true htask).trans hid.symm)
  obtain rfl := Option.some.inj (hanswer.symm.trans ha)
  rw [hpromise] at hsettled
  rcases hsettled with hsame | ⟨hnone, -⟩
  · exact absurd hsame (by simp)
  · exact absurd hnone (by simp)

end Dispatching

end Kaiban
