/-
A paid success and the attempts after it.

The retry loop's `try` covers the handler's call and the publication of its result, so a
result that could not be built or published is treated like a failed attempt.  What holds
is this: when no such failure leaves another attempt to run, a handler is never called
again after one has won its race with a value.
-/
import Kaiban.Proofs.Actor.EmergencyStop

open JsString

namespace Kaiban

variable {cfg : ActorConfig} {sig : Signals}

/-! ### What a reaction calls -/

/-- A call that neither begins nor ends an attempt. -/
def Call.isReport : Call → Bool
  | .handler _ => false
  | .attemptEnded _ _ => false
  | _ => true

theorem Call.isHandler_of_isReport {c : Call} (h : c.isReport = true) : c.isHandler = false := by
  cases c <;> first | rfl | exact absurd h (by simp [isReport])

namespace Delivery

/-- The calls of `del'` are those of `del` and some that neither begin nor end an attempt. -/
def Reports (del del' : Delivery) : Prop :=
  ∃ cs, del'.calls = del.calls ++ cs ∧ ∀ c ∈ cs, c.isReport = true

theorem Reports.refl (del : Delivery) : Reports del del := ⟨[], by simp⟩

theorem Reports.trans {a b c : Delivery} (hab : Reports a b) (hbc : Reports b c) :
    Reports a c := by
  obtain ⟨cs, hb, hcs⟩ := hab
  obtain ⟨ds, hc, hds⟩ := hbc
  refine ⟨cs ++ ds, by rw [hc, hb, List.append_assoc], fun c hmem => ?_⟩
  rcases List.mem_append.mp hmem with h | h
  · exact hcs c h
  · exact hds c h

theorem reports_call (del : Delivery) {cs : List Call} (h : ∀ c ∈ cs, c.isReport = true)
    (st : Stage) : Reports del ((del.call cs).goto st) := ⟨cs, rfl, h⟩

theorem reports_breaker (del : Delivery) {c : Call} (h : c.isReport = true) :
    Reports del (del.breaker cfg c) := by
  refine ⟨_, del.breaker_calls c, fun x hx => ?_⟩
  split at hx
  · rw [List.mem_singleton.mp hx]
    exact h
  · exact absurd hx (by simp)

theorem reports_publishToDlq (del : Delivery) (error : JsString) (reason : Option JsString)
    (ending : Ending) : Reports del (del.publishToDlq cfg error reason ending) :=
  reports_call del (by simp [Call.isReport]) _

theorem reports_failNonRetryable (del : Delivery) (e : NonRetryableError) :
    Reports del (del.failNonRetryable cfg e) := by
  unfold failNonRetryable
  split
  · exact (reports_breaker del rfl).trans (reports_publishToDlq _ _ _ _)
  · exact reports_publishToDlq _ _ _ _

theorem reports_caught (del : Delivery) (k : ℕ) (err : Thrown) :
    Reports del (del.caught cfg sig k err) := by
  rcases del.caught_cases k err with ⟨e, -, h⟩ | ⟨-, -, h⟩ | ⟨t, -, -, -, h⟩ | ⟨t, -, -, -, h⟩ <;>
    rw [h]
  · exact reports_failNonRetryable del e
  · exact Reports.refl del
  · exact Reports.refl del
  · exact (reports_breaker del rfl).trans (reports_publishToDlq _ _ _ _)

theorem reports_attemptEnded (del : Delivery) (k : ℕ) (out : Outcome) :
    Reports (del.call [.attemptEnded k out]) (del.attemptEnded cfg sig k out) := by
  rcases del.attemptEnded_cases k out with ⟨e, -, h⟩ | ⟨v, e, -, -, h⟩ | ⟨v, data, -, -, h⟩ <;>
    rw [h]
  · exact reports_caught _ k e
  · exact (reports_breaker _ rfl).trans (reports_caught _ k e)
  · exact (reports_breaker _ rfl).trans (reports_call _ (by simp [Call.isReport]) _)

theorem reports_recorded (del : Delivery) (ending : Ending) :
    Reports del (del.recorded cfg ending) := by
  rcases del.recorded_cases ending with h | h <;> rw [h]
  · exact reports_call del (by simp [Call.isReport]) _
  · exact Reports.refl del

end Delivery

open Delivery in
/-- **A reaction begins one attempt, ends one, or does neither.** -/
theorem Reaction.reports {del del' : Delivery} {a : Act} (h : Reaction cfg sig del a del') :
    Reports del del' ∨
    (∃ k, del.stage = .starting k ∧ del' = (del.call [.handler k]).goto (.running k none)) ∨
    (∃ k out, del.stage = .running k (some out) ∧ a = .resume ∧
      del' = del.attemptEnded cfg sig k out ∧ Reports (del.call [.attemptEnded k out]) del') := by
  cases h with
  | blockedByFirewall => exact .inl (reports_publishToDlq _ _ _ _)
  | blockedByGate => exact .inl (reports_publishToDlq _ _ _ _)
  | started k hs =>
      rcases del.startAttempt_cases k with ⟨e, -, h⟩ | ⟨-, h⟩
      · rw [h]
        exact .inl (reports_failNonRetryable del e)
      · exact .inr (.inl ⟨k, hs, h⟩)
  | raced k out hs => exact .inr (.inr ⟨k, out, hs, rfl, rfl, reports_attemptEnded del k out⟩)
  | notCompleted k e hs => exact .inl (reports_caught del k e)
  | recorded ending hs => exact .inl (reports_recorded del ending)
  | _ => exact .inl (Reports.refl del)

/-! ### No attempt after a closing call -/

/-- No handler is called after a call of the kind `p`. -/
def QuietAfter (p : Call → Prop) (cs : List Call) : Prop :=
  cs.Pairwise fun c later => p c → later.isHandler = false

/-- No attempt can begin any more, unless a publish fails. -/
def Stage.Closed : Stage → Prop
  | .publishing _ => True
  | .recording _ => True
  | .ended _ => True
  | _ => False

/-- `QuietAfter`, and such a call closes the delivery. -/
structure ClosedBy (p : Call → Prop) (del : Delivery) : Prop where
  quiet : QuietAfter p del.calls
  closed : ∀ c ∈ del.calls, p c → del.stage.Closed

theorem QuietAfter.reports {p : Call → Prop} {del del' : Delivery} (h : QuietAfter p del.calls)
    (hr : Delivery.Reports del del') : QuietAfter p del'.calls := by
  obtain ⟨cs, hcalls, hcs⟩ := hr
  rw [hcalls]
  refine List.pairwise_append.mpr ⟨h, ?_, fun c _ x hx _ => Call.isHandler_of_isReport (hcs x hx)⟩
  exact List.Pairwise.imp_of_mem (R := fun _ _ => True)
    (fun _ hx _ _ => Call.isHandler_of_isReport (hcs _ hx))
      (List.pairwise_of_forall fun _ _ => trivial)

theorem mem_of_reports {p : Call → Prop} (hp : ∀ c, p c → ∃ k out, c = .attemptEnded k out)
    {del del' : Delivery} (hr : Delivery.Reports del del') {c : Call} (hc : c ∈ del'.calls)
    (hpc : p c) : c ∈ del.calls := by
  obtain ⟨cs, hcalls, hcs⟩ := hr
  rw [hcalls] at hc
  rcases List.mem_append.mp hc with h | h
  · exact h
  · obtain ⟨k, out, rfl⟩ := hp c hpc
    exact absurd (hcs _ h) (by simp [Call.isReport])

/-- A closed delivery stays closed, unless its completion could not be published. -/
theorem Reaction.closed {del del' : Delivery} {a : Act} (h : Reaction cfg sig del a del')
    (hc : del.stage.Closed) :
    del'.stage.Closed ∨ ∃ k e, del.stage = .publishing k ∧ a = .published (.error e) := by
  cases h with
  | notCompleted k e hs => exact .inr ⟨k, e, hs, rfl⟩
  | late => exact .inl hc
  | completed => exact .inl trivial
  | recorded => exact .inl trivial
  | notRecorded => exact .inl trivial
  | _ =>
      rename_i hs
      rw [hs] at hc
      exact hc.elim

/-- **One reaction keeps `ClosedBy`**, if a closing end of an attempt closes the delivery
and no failed publish opens it again. -/
theorem ClosedBy.reaction {p : Call → Prop} (hp : ∀ c, p c → ∃ k out, c = .attemptEnded k out)
    {del del' : Delivery} {a : Act} (h : ClosedBy p del) (hr : Reaction cfg sig del a del')
    (hrace : ∀ k out, del.stage = .running k (some out) → a = .resume → p (.attemptEnded k out) →
      del'.stage.Closed)
    (hpub : ∀ k e, del.stage = .publishing k → a = .published (.error e) → del'.stage.Closed) :
    ClosedBy p del' := by
  have hopen : ¬ del.stage.Closed → ∀ c ∈ del.calls, ¬ p c := fun hno c hc hpc =>
    hno (h.closed c hc hpc)
  rcases hr.reports with hrep | ⟨k, hs, rfl⟩ | ⟨k, out, hs, rfl, -, hrep⟩
  · refine ⟨h.quiet.reports hrep, fun c hc hpc => ?_⟩
    rcases hr.closed (h.closed c (mem_of_reports hp hrep hc hpc) hpc) with hc' | ⟨k, e, hs, ha⟩
    · exact hc'
    · exact hpub k e hs ha
  · have hnone := hopen (by rw [hs]; exact id)
    have hhandler : ∀ c ∈ ((del.call [.handler k]).goto (.running k none)).calls, ¬ p c := by
      intro c hc hpc
      rcases List.mem_append.mp hc with hc | hc
      · exact hnone c hc hpc
      · obtain ⟨j, out, rfl⟩ := hp c hpc
        simp at hc
    refine ⟨List.pairwise_append.mpr ⟨h.quiet, by simp, fun c hc x _ hpc => ?_⟩,
      fun c hc hpc => absurd hpc (hhandler c hc)⟩
    exact absurd hpc (hnone c hc)
  · have hnone := hopen (by rw [hs]; exact id)
    have hbase : QuietAfter p (del.call [.attemptEnded k out]).calls :=
      List.pairwise_append.mpr ⟨h.quiet, by simp, fun c hc x _ hpc => absurd hpc (hnone c hc)⟩
    refine ⟨hbase.reports hrep, fun c hc hpc => ?_⟩
    rcases List.mem_append.mp (mem_of_reports hp hrep hc hpc) with hc | hc
    · exact absurd hpc (hnone c hc)
    · obtain rfl : c = .attemptEnded k out := by simpa using hc
      exact hrace k out hs rfl hpc

theorem ClosedBy.abort {p : Call → Prop} {del : Delivery} (h : ClosedBy p del)
    (e : NonRetryableError) : ClosedBy p (del.abort e) := by
  rcases del.abort_cases e with ⟨k, hs, habort⟩ | ⟨-, habort⟩ <;> rw [habort]
  · refine ⟨h.quiet, fun c hc hpc => ?_⟩
    have hclosed := h.closed c hc hpc
    rw [hs] at hclosed
    exact hclosed.elim
  · exact h

theorem closedBy_processTask {p : Call → Prop} (hp : ∀ c, p c → ∃ k out, c = .attemptEnded k out)
    (sig : Signals) (pl : Payload) (b : Bool) : ClosedBy p (processTask cfg sig pl b) := by
  rcases Actor.processTask_calls cfg sig pl b with hc | ⟨r, hc⟩
  · exact ⟨by simp [QuietAfter, hc], fun c h _ => by simp [hc] at h⟩
  · refine ⟨by simp [QuietAfter, hc], fun c h hpc => ?_⟩
    obtain ⟨k, out, rfl⟩ := hp c hpc
    simp [hc] at h

/-! ### Paid work -/

/-- An attempt whose handler won its race with a value. -/
def Paid (c : Call) : Prop := ∃ k v, c = .attemptEnded k (.returned v)

/-- No attempt follows a failure of this one: it is final, the last, or its text throws. -/
def Ends (cfg : ActorConfig) (sig : Signals) (p : Payload) (attempt : ℕ) (err : Thrown) : Prop :=
  finalError cfg sig p attempt err ≠ none ∨ retryAttempts ≤ attempt ∨ err.text = none

/-- Where the event is a failure to build or publish a completion, no attempt follows it. -/
def NoRetryOfPaid (cfg : ActorConfig) (s : Actor) : ActorEvent → Prop
  | .act d .resume => ∀ del k v err, s.deliveries d = some del →
      del.stage = .running k (some (.returned v)) → Delivery.completionData cfg v = .error err →
      Ends cfg s.signals del.payload k err
  | .act d (.published (.error err)) => ∀ del k, s.deliveries d = some del →
      del.stage = .publishing k → Ends cfg s.signals del.payload k err
  | _ => True

/-- A failed attempt closes the delivery exactly when `Ends` says so. -/
theorem caught_closed {del : Delivery} {k : ℕ} {err : Thrown} :
    (del.caught cfg sig k err).stage.Closed ↔ Ends cfg sig del.payload k err := by
  rcases del.caught_cases k err with ⟨e, hfinal, hc⟩ | ⟨-, ht, hc⟩ | ⟨t, hnone, ht, hlt, hc⟩ |
    ⟨t, -, -, hlast, hc⟩ <;> rw [hc]
  · exact ⟨fun _ => .inl (by simp [hfinal]), fun _ => trivial⟩
  · exact ⟨fun _ => .inr (.inr ht), fun _ => trivial⟩
  · refine ⟨fun h => h.elim, ?_⟩
    rintro (h | h | h)
    · exact absurd hnone h
    · omega
    · rw [h] at ht
      exact absurd ht (by simp)
  · exact ⟨fun _ => .inr (.inl hlast), fun _ => trivial⟩

/-- **A paid success is never run again**, in every run in which no failure to build or
publish a completion leaves another attempt to run; such a failure ends the delivery. -/
theorem paid_once {es : List ActorEvent} {s : Actor}
    (hc : Steps.Along (Actor.step cfg) (NoRetryOfPaid cfg) Actor.init es)
    (hrun : Steps.run (Actor.step cfg) Actor.init es = some s) {d : ℕ} {del : Delivery}
    (hd : s.deliveries d = some del) :
    QuietAfter Paid del.calls ∧ ((∃ c ∈ del.calls, Paid c) → del.stage.Closed) := by
  have hp : ∀ c, Paid c → ∃ k out, c = .attemptEnded k out := fun c ⟨k, v, hc⟩ => ⟨k, _, hc⟩
  have hall : Actor.Each (ClosedBy Paid) s := by
    refine Actor.each_run (fun sig p b => closedBy_processTask hp sig p b) ?_
      (fun del err h _ => h.abort err) (Actor.each_init _) hc hrun
    intro s d a del del' hcond hdel h hr
    refine h.reaction hp hr ?_ ?_
    · rintro k out hs rfl ⟨j, v, hout⟩
      obtain ⟨rfl, rfl⟩ : k = j ∧ out = .returned v := by simpa using hout
      cases hr with
      | late a ha => simp at ha
      | raced i out hi =>
          obtain ⟨rfl, rfl⟩ : k = i ∧ Outcome.returned v = out := by simpa [hs] using hi
          rcases del.attemptEnded_cases k (.returned v) with ⟨e, hno, -⟩ | ⟨w, e, hw, hdata, hc⟩ |
            ⟨w, data, -, -, hc⟩
          · exact absurd hno (by simp)
          · obtain rfl : v = w := by simpa using hw
            rw [hc]
            refine caught_closed.mpr ?_
            simpa using hcond del k v e hdel hs hdata
          · rw [hc]
            trivial
    · rintro k e hs rfl
      cases hr with
      | late a ha => simp at ha
      | notCompleted i e hi =>
          obtain rfl : k = i := by simpa [hs] using hi
          exact caught_closed.mpr (hcond del k hdel hs)
      | notRecorded ending e hi => trivial
  obtain ⟨hquiet, hclosed⟩ := hall d del hd
  exact ⟨hquiet, fun ⟨c, hmem, hpaid⟩ => hclosed c hmem hpaid⟩

def answer : Value := ⟨false, .ok (some (.str (js "done"))), .ok (js "done")⟩

theorem completionData_answer :
    Delivery.completionData Actor.plainConfig answer
      = .ok (completedData (.str (js "done"))) := by
  have hsmall : jsonBytes (.obj (completedData (.str (js "done")))) ≤ maxPublishDataLen := by
    decide +kernel
  simp [Delivery.completionData, answer, capDataSize, hsmall]

/-- The broker fails when the completion is published, after the agent was told to stop. -/
def stoppedPublish : List ActorEvent :=
  [.deliver 0 Actor.plainTask false, .act 0 .start, .act 0 (.settles 1 (.returned answer)),
    .act 0 .resume, .stop, .act 0 (.published (.error (.error [])))]

theorem noRetry_stoppedPublish :
    Steps.Along (Actor.step Actor.plainConfig) (NoRetryOfPaid Actor.plainConfig) Actor.init
      stoppedPublish := by
  refine ⟨trivial, fun s1 h1 => ⟨trivial, fun s2 h2 => ⟨trivial, fun s3 h3 => ⟨?_, fun s4 h4 =>
    ⟨trivial, fun s5 h5 => ⟨?_, fun _ _ => trivial⟩⟩⟩⟩⟩⟩
  · intro del k v err hd hs hdata
    obtain rfl := Option.some.inj h1
    obtain rfl := Option.some.inj h2
    obtain rfl := Option.some.inj h3
    obtain rfl : (⟨Actor.plainTask, .running 1 (some (.returned answer)), [.handler 1]⟩ : Delivery)
        = del := Option.some.inj hd
    obtain ⟨rfl, rfl⟩ : 1 = k ∧ answer = v := by simpa using hs
    rw [completionData_answer] at hdata
    exact absurd hdata (by simp)
  · intro del k hd hs
    obtain rfl := Option.some.inj h1
    obtain rfl := Option.some.inj h2
    obtain rfl := Option.some.inj h3
    obtain rfl := Option.some.inj h4
    obtain rfl := Option.some.inj h5
    obtain rfl := Option.some.inj hd
    exact .inl (Option.some_ne_none stoppedError)

theorem paid_once_stopping :
    ∃ s del, Steps.run (Actor.step Actor.plainConfig) Actor.init stoppedPublish = some s ∧
      s.deliveries 0 = some del ∧ QuietAfter Paid del.calls := by
  obtain ⟨s, del, hrun, hd⟩ : ∃ s del,
      Steps.run (Actor.step Actor.plainConfig) Actor.init stoppedPublish = some s ∧
        s.deliveries 0 = some del := ⟨_, _, rfl, rfl⟩
  exact ⟨s, del, hrun, hd, (paid_once noRetry_stoppedPublish hrun hd).1⟩

/-- The broker fails when the completion is published, and the handler is called again. -/
theorem unpublished_success_rerun :
    ∃ s del, Steps.run (Actor.step Actor.plainConfig) Actor.init
        [.deliver 0 Actor.plainTask false, .act 0 .start,
          .act 0 (.settles 1 (.returned answer)), .act 0 .resume,
          .act 0 (.published (.error (.error []))), .act 0 .delayed, .act 0 .start] = some s ∧
      s.deliveries 0 = some del ∧ ¬ QuietAfter Paid del.calls := by
  refine ⟨_, _, rfl, rfl, fun h => ?_⟩
  have hcalls : QuietAfter Paid [.handler 1, .attemptEnded 1 (.returned answer),
    .publish ⟨.completed, js "task-1", js "writer", completedData (.str (js "done"))⟩,
    .handler 2] := h
  simp [QuietAfter, Paid, Call.isHandler] at hcalls

end Kaiban
