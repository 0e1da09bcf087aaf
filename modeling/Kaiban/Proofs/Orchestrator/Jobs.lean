/-
What a step does to the save chain and the store.

Jobs are queued at the end and only the head goes on, so the calls to the store come in the
order in which their jobs were asked for.
-/
import Kaiban.Proofs.Orchestrator.Calls

open JsString

namespace Kaiban.Orchestrator

variable {ν : Type} {opts : OrchestratorOptions ν} {s s' : Orchestrator ν}

/-- The fields about the save chain and the store. -/
structure Chain where
  store : Option Checkpoint
  jobs : List Job
  jobCount : ℕ
  flushed : ℕ
  storeCalls : List StoreCall
  storeLedger : List Charge

def chain (s : Orchestrator ν) : Chain :=
  ⟨s.store, s.jobs, s.jobCount, s.flushed, s.storeCalls, s.storeLedger⟩

section

variable [Arithmetic]

/-- What a step does to these fields. -/
inductive ChainChange (s s' : Orchestrator ν) : OrchestratorEvent ν → Prop
  | quiet (e : OrchestratorEvent ν) (h : s'.chain = s.chain) : ChainChange s s' e
  | queued (e : OrchestratorEvent ν) (kind : JobKind)
      (howner : ∀ c, kind = .save (some c) → ∃ w ∈ s'.writes, w.call = c)
      (hwipe : kind = .wipe → e = .clear)
      (h : s'.chain = (s.enqueue kind).chain) : ChainChange s s' e
  | loading (job : Job) (rest : List Job) (owner : Option ℕ) (hj : s.jobs = job :: rest)
      (hp : job.phase = .queued) (hkind : job.kind = .save owner)
      (h : s'.chain = { s with
        jobs := { job with phase := .loading s.ensureLoaded.2 } :: rest }.chain) :
      ChainChange s s' .jobStarts
  | clearing (job : Job) (rest : List Job) (hj : s.jobs = job :: rest)
      (hp : job.phase = .queued) (hkind : job.kind = .wipe)
      (h : s'.chain = { s with
        jobs := { job with phase := .clearing false } :: rest
        storeCalls := s.storeCalls ++ [StoreCall.mk job.id none] }.chain) :
      ChainChange s s' .jobStarts
  | writing (job : Job) (rest : List Job) (ref : LoadRef) (hj : s.jobs = job :: rest)
      (hp : job.phase = .loading ref) (ho : s.outcome ref = some true)
      (hkept : ¬ (s.cleared = true ∧ s.steps.entries = []))
      (h : s'.chain = { s with
        jobs := { job with phase := .writing s.snapshot false } :: rest
        storeCalls := s.storeCalls ++ [StoreCall.mk job.id (some s.snapshot.record)] }.chain) :
      ChainChange s s' .jobLoaded
  | saved (job : Job) (rest : List Job) (snap : Snapshot) (hj : s.jobs = job :: rest)
      (hp : job.phase = .writing snap false)
      (h : s'.chain = { s with
        jobs := { job with phase := .writing snap true } :: rest
        store := some snap.record
        flushed := snap.written
        storeLedger := snap.ledger }.chain) : ChainChange s s' .storeActs
  | wiped (job : Job) (rest : List Job) (hj : s.jobs = job :: rest)
      (hp : job.phase = .clearing false)
      (h : s'.chain = { s with
        jobs := { job with phase := .clearing true } :: rest
        store := none
        storeLedger := [] }.chain) : ChainChange s s' .storeActs
  | ended (e : OrchestratorEvent ν) (he : Settles e) (job : Job) (rest : List Job)
      (hj : s.jobs = job :: rest) (hp : job.phase ≠ .queued)
      (h : s'.chain = { s with jobs := rest }.chain) : ChainChange s s' e
  | crashed (budget : WorkflowBudget) (h : s' = fresh budget s.store s.storeLedger) :
      ChainChange s s' (.crash budget)

theorem chain_paid (name : JsString) (result : JsString ⊕ ν) :
    (s.paid opts name result).chain = s.chain := by
  obtain ⟨totals, stop, reports, h⟩ := paid_frame opts s name result
  rw [h]
  rfl

theorem queued_stored {t : Orchestrator ν} (ht : t.chain = s.chain) (e : OrchestratorEvent ν)
    (c : ℕ) (name : JsString) (cp : ℕ) (entry : StepCheckpoint) :
    ChainChange s (t.stored c name cp entry) e := by
  refine .queued e (.save (some c)) (fun x hx => ⟨⟨cp, c, name, entry⟩, ?_, ?_⟩)
    (fun h => absurd h (by simp)) ?_
  · exact List.mem_append_right _ (List.mem_singleton_self _)
  · exact Option.some.inj (JobKind.save.inj hx)
  · simp only [chain, Chain.mk.injEq] at ht
    simp [chain, stored, writeStep, saveStep, persist, enqueue, setPhase, ht]

/-- **Every step changes these fields in one of the listed ways.** -/
theorem chain_step {e : OrchestratorEvent ν} (hstep : s.step opts e = some s') :
    ChainChange s s' e := by
  have hended : ∀ (e : OrchestratorEvent ν), Settles e → ∀ (job : Job) (rest : List Job),
      s.jobs = job :: rest → job.phase ≠ .queued → ∀ ok,
      ChainChange s (s.jobSettled job rest ok) e := by
    intro e he job rest hj hp ok
    obtain ⟨calls, hl⟩ := s.jobSettled_frame job rest ok
    exact .ended e he job rest hj hp (by rw [hl]; rfl)
  cases transition hstep with
  | called kind name =>
      rcases s.startCall_cases kind name with ⟨-, -, hs⟩ | ⟨-, hs⟩ <;> rw [hs]
      · exact .quiet _ rfl
      · obtain ⟨loads, count, loading, hl⟩ := s.ensureLoaded_frame
        rw [hl]
        exact .quiet _ rfl
  | recorded delta =>
      obtain ⟨stop, reports, hs⟩ := s.recordSpend_frame delta
      rw [hs]
      exact .queued _ (.save none) (fun c hc => absurd hc (by simp))
        (fun h => absurd h (by simp)) rfl
  | clearCalled => exact .queued _ .wipe (fun c hc => absurd hc (by simp)) (fun _ => rfl) rfl
  | loadReturned l record ledger hp =>
      rcases s.loadReturned_cases l record ledger with ⟨-, hs⟩ | ⟨-, -, hs⟩ |
        ⟨saved, -, -, hs⟩ <;> rw [hs]
      · exact .quiet _ rfl
      · obtain ⟨loads, loading, hl⟩ := (s.withSteps record).loadFailed_frame l
        rw [hl]
        exact .quiet _ rfl
      · obtain ⟨stop, reports, hr⟩ :=
          (s.withSteps record).restore_frame (record.getD .empty) ledger saved
        rw [hr]
        exact .quiet _ rfl
  | loadThrew l hl hp =>
      obtain ⟨loads, loading, hs⟩ := s.loadFailed_frame l
      rw [hs]
      exact .quiet _ rfl
  | callLoaded c kind name generation ref ok hc ho =>
      rcases s.callLoaded_cases c kind generation ok with ⟨-, hs⟩ | ⟨-, -, b, hs⟩ |
        ⟨-, -, hs⟩ <;> rw [hs] <;> exact .quiet _ rfl
  | callChecked c kind name generation cp hc =>
      rcases s.callChecked_cases c name generation cp with ⟨-, hs⟩ | ⟨-, hs⟩ <;> rw [hs] <;>
        exact .quiet _ rfl
  | entered c kind name cp hc =>
      rcases enter_cases opts s c kind name cp with ⟨e, -, hs⟩ | ⟨-, -, hs⟩ |
        ⟨err, -, -, -, hs⟩ | ⟨-, -, -, -, hs⟩ <;> rw [hs] <;> exact .quiet _ rfl
  | dispatched c kind name cp r hc =>
      rcases s.dispatched_cases c name cp r with ⟨-, hs⟩ | ⟨taskId, result, -, -, hs⟩ |
        ⟨taskId, -, -, hs⟩ <;> rw [hs]
      · exact .quiet _ rfl
      · exact queued_stored rfl _ c name cp _
      · exact .quiet _ rfl
  | waited c kind name cp taskId r hc =>
      rcases waited_cases opts s c name cp taskId r with ⟨-, hs⟩ | ⟨result, -, hs⟩ <;> rw [hs]
      · exact .quiet _ rfl
      · exact queued_stored (chain_paid name _) _ c name cp _
  | continued c kind name cp value hc =>
      rcases continued_cases opts s c name cp value with ⟨-, hs⟩ | ⟨result, -, hs⟩ <;> rw [hs]
      · exact .quiet _ rfl
      · exact queued_stored (chain_paid name _) _ c name cp _
  | jobStarted job rest hj hp =>
      rcases s.jobStarted_cases job rest with ⟨owner, hkind, hs⟩ | ⟨hkind, hs⟩ <;> rw [hs]
      · refine .loading job rest owner hj hp hkind ?_
        obtain ⟨loads, count, loading, hl⟩ := s.ensureLoaded_frame
        rw [hl]
        rfl
      · exact .clearing job rest hj hp hkind rfl
  | jobLoaded job rest ref ok hj hp ho =>
      have hne : job.phase ≠ .queued := by simp [hp]
      rcases s.jobLoaded_cases job rest ok with ⟨-, hs⟩ | ⟨-, -, -, hs⟩ | ⟨rfl, hkept, hs⟩ <;>
        rw [hs]
      · exact hended .jobLoaded trivial job rest hj hne false
      · exact hended .jobLoaded trivial job rest hj hne true
      · exact .writing job rest ref hj hp ho hkept rfl
  | saveActed job rest snap hj hp => exact .saved job rest snap hj hp rfl
  | clearActed job rest hj hp => exact .wiped job rest hj hp rfl
  | jobReturned job rest hj hp =>
      have hne : job.phase ≠ .queued := by
        rcases hp with ⟨snap, hp⟩ | hp <;> simp [hp]
      exact hended .jobReturns trivial job rest hj hne true
  | jobThrew job rest hj hp =>
      have hne : job.phase ≠ .queued := by
        rcases hp with ⟨snap, hp⟩ | hp <;> simp [hp]
      exact hended .jobThrows trivial job rest hj hne false
  | crashed budget => exact .crashed budget rfl
  | _ => exact .quiet _ rfl

end

/-! ### The calls that wait for a save -/

theorem owners_of_jobs (h : s'.jobs = s.jobs) : s'.owners = s.owners := by
  unfold owners
  rw [h]

theorem mem_owners {c : ℕ} : c ∈ s.owners ↔ ∃ job ∈ s.jobs, job.kind = .save (some c) := by
  unfold owners
  rw [List.mem_filterMap]
  refine exists_congr fun job => and_congr_right fun _ => ?_
  cases job.kind with
  | save owner => simp
  | wipe => simp

/-- The head goes on, and waits for the same call. -/
theorem owners_head {job : Job} {rest : List Job} {phase : JobPhase} (hj : s.jobs = job :: rest)
    (h : s'.jobs = { job with phase := phase } :: rest) {c : ℕ} (hc : c ∈ s'.owners) :
    c ∈ s.owners := by
  obtain ⟨old, hmem, hkind⟩ := mem_owners.mp hc
  rw [h] at hmem
  rcases List.mem_cons.mp hmem with rfl | hrest
  · exact mem_owners.mpr ⟨job, hj ▸ List.mem_cons_self, hkind⟩
  · exact mem_owners.mpr ⟨old, hj ▸ List.mem_cons_of_mem _ hrest, hkind⟩

variable [Arithmetic] in
/-- A call that waits for a save has written its step. -/
theorem owners_step {e : OrchestratorEvent ν} (hstep : s.step opts e = some s') {c : ℕ}
    (hc : c ∈ s'.owners) : c ∈ s.owners ∨ ∃ w ∈ s'.writes, w.call = c := by
  cases chain_step hstep with
  | quiet _ h =>
      have hjobs : s'.jobs = s.jobs := congrArg Chain.jobs h
      exact .inl (owners_of_jobs hjobs ▸ hc)
  | queued _ kind howner _ h =>
      have hjobs : s'.jobs = s.jobs ++ [⟨s.jobCount, kind, .queued⟩] := congrArg Chain.jobs h
      obtain ⟨job, hmem, hkind⟩ := mem_owners.mp hc
      rw [hjobs] at hmem
      rcases List.mem_append.mp hmem with hold | hnew
      · exact .inl (mem_owners.mpr ⟨job, hold, hkind⟩)
      · rw [List.mem_singleton.mp hnew] at hkind
        exact .inr (howner c hkind)
  | loading job rest owner hj hp hkind h =>
      exact .inl (owners_head hj (congrArg Chain.jobs h) hc)
  | clearing job rest hj hp hkind h => exact .inl (owners_head hj (congrArg Chain.jobs h) hc)
  | writing job rest ref hj hp ho hkept h =>
      exact .inl (owners_head hj (congrArg Chain.jobs h) hc)
  | saved job rest snap hj hp h => exact .inl (owners_head hj (congrArg Chain.jobs h) hc)
  | wiped job rest hj hp h => exact .inl (owners_head hj (congrArg Chain.jobs h) hc)
  | ended _ he job rest hj hp h =>
      have hjobs : s'.jobs = rest := congrArg Chain.jobs h
      obtain ⟨old, hmem, hkind⟩ := mem_owners.mp hc
      exact .inl (mem_owners.mpr ⟨old, hj ▸ List.mem_cons_of_mem _ (hjobs ▸ hmem), hkind⟩)
  | crashed budget h =>
      subst h
      obtain ⟨job, hmem, -⟩ := mem_owners.mp hc
      exact absurd hmem (by simp [fresh])

end Kaiban.Orchestrator
