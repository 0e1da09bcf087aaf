/-
What a step does to spend, stops and the work begun.

Most steps move a call, a load or a job on and leave these fields as they are.
`control_step` lists the steps that do not: a charge, a restore, the beginning of a step's
work, the stop signal, a reset and a crash.  Only the last two change the generation.
-/
import Kaiban.Proofs.Orchestrator.Transitions

open JsString

namespace Kaiban.Orchestrator

variable [Arithmetic] {ν : Type} {opts : OrchestratorOptions ν} {s s' : Orchestrator ν}

/-- The fields about spend, stops and the work begun. -/
structure Control where
  budget : WorkflowBudget
  totals : RunningTotals
  stop : Option WorkflowStop
  reports : List WorkflowStop
  begun : List ℕ
  aborted : Bool
  generation : ℕ
  restoredRecord : Option Checkpoint
  restored : SpendTotals
  charges : List Charge
  inherited : List Charge

def control (s : Orchestrator ν) : Control :=
  ⟨s.budget, s.totals, s.stop, s.reports, s.begun, s.aborted, s.generation, s.restoredRecord,
    s.restored, s.charges, s.inherited⟩

/-- The state with an amount charged to a step, and added to the totals. -/
def charged (s : Orchestrator ν) (step : Option JsString) (amount : SpendTotals) :
    Orchestrator ν :=
  { s.charge step amount with totals := s.totals.add amount }

/-- What an event brings to charge: a spend that is recorded, a result of the router, the value
of a producer. -/
def obtained (opts : OrchestratorOptions ν) (s : Orchestrator ν) :
    OrchestratorEvent ν → List Charge
  | .recordSpend delta => [⟨none, cleanSpendTotals delta⟩]
  | .waited c (.ok result) =>
      match s.calls c with
      | some ⟨_, name, .waiting _ _⟩ => [⟨some name, costOf opts (.inl result)⟩]
      | _ => []
  | .continues c =>
      match s.calls c with
      | some ⟨_, name, .produced _ value⟩ => [⟨some name, costOf opts (.inr value)⟩]
      | _ => []
  | _ => []

/-- What a step does to these fields. -/
inductive ControlChange (opts : OrchestratorOptions ν) (s s' : Orchestrator ν) :
    OrchestratorEvent ν → Prop
  | quiet (e : OrchestratorEvent ν) (h : s'.control = s.control) (he : obtained opts s e = []) :
      ControlChange opts s s' e
  | accounted (e : OrchestratorEvent ν) (step : Option JsString) (amount : SpendTotals)
      (h : s'.control = (s.charged step amount).checkStop.control ∨
        amount = 0 ∧ s'.control = (s.charge step 0).control)
      (he : obtained opts s e = [⟨step, amount⟩]) : ControlChange opts s s' e
  /-- The value of a producer has no JSON text. -/
  | unaccounted (c : ℕ) (kind : CallKind) (name : JsString) (cp : ℕ) (value : ν)
      (hc : s.calls c = some ⟨kind, name, .produced cp value⟩) (hv : opts.stringify value = none)
      (h : s'.control = (s.charge (some name) (costOf opts (.inr value))).control) :
      ControlChange opts s s' (.continues c)
  | restored (l : ℕ) (record : Option Checkpoint) (ledger : List Charge) (saved : PersistedSpend)
      (hp : (s.loads l).phase = .read record ledger) (hgen : (s.loads l).generation = s.generation)
      (hparse : parsePersistedSpend (spendText record) = some saved)
      (h : s'.control = (s.restore (record.getD .empty) ledger saved).control) :
      ControlChange opts s s' (.loadReturns l)
  | began (c : ℕ) (kind : CallKind) (name : JsString) (cp : ℕ)
      (hc : s.calls c = some ⟨kind, name, .started cp⟩) (hstop : s.stop = none)
      (hrun : s.aborted = false)
      (h : s'.control = { s with begun := s.begun ++ [c] }.control) :
      ControlChange opts s s' (.enters c)
  | signalled (h : s'.control = { s with aborted := true }.control) :
      ControlChange opts s s' .signalStop
  | wiped (h : s'.control = s.reset.control) : ControlChange opts s s' .jobStarts
  | crashed (budget : WorkflowBudget) (h : s' = fresh budget s.store s.storeLedger) :
      ControlChange opts s s' (.crash budget)

theorem control_checkStop {t : Orchestrator ν} (h : t.control = s.control) :
    t.checkStop.control = s.checkStop.control := by
  obtain ⟨htotals, hstop, hbudget⟩ :
      t.totals = s.totals ∧ t.stop = s.stop ∧ t.budget = s.budget := by
    simp only [control, Control.mk.injEq] at h
    exact ⟨h.2.1, h.2.2.1, h.1⟩
  unfold checkStop
  rw [hstop, htotals, hbudget]
  split
  · exact h
  · split
    · exact h
    · simp only [control, Control.mk.injEq] at h ⊢
      simp [h]

theorem control_paid (name : JsString) (result : JsString ⊕ ν) :
    (s.paid opts name result).control
        = (s.charged (some name) (costOf opts result)).checkStop.control ∨
      costOf opts result = 0 ∧ (s.paid opts name result).control
        = (s.charge (some name) 0).control := by
  unfold paid account
  cases hspend : opts.spendOf result with
  | none =>
      refine .inr ⟨by simp [costOf, hspend], ?_⟩
      simp [control, charge, costOf, hspend]
  | some delta =>
      have hcost : costOf opts result = cleanSpendTotals delta := by simp [costOf, hspend]
      rw [hcost]
      exact .inl rfl

theorem control_keepStop {t : Orchestrator ν} (h : t.control = s.control)
    (saved : PersistedSpend) : (t.keepStop saved).control = (s.keepStop saved).control := by
  obtain ⟨htotals, hstop, hbudget⟩ :
      t.totals = s.totals ∧ t.stop = s.stop ∧ t.budget = s.budget := by
    simp only [control, Control.mk.injEq] at h
    exact ⟨h.2.1, h.2.2.1, h.1⟩
  unfold keepStop
  rw [hstop, htotals, hbudget]
  split
  · exact h
  · split
    · simp only [control, Control.mk.injEq] at h ⊢
      simp [h]
    · exact h

theorem control_restore {t : Orchestrator ν} (h : t.control = s.control) (record : Checkpoint)
    (ledger : List Charge) (saved : PersistedSpend) :
    (t.restore record ledger saved).control = (s.restore record ledger saved).control := by
  refine control_checkStop (control_keepStop ?_ saved)
  simp only [control, Control.mk.injEq] at h ⊢
  simp [h]

/-- **Every step changes these fields in one of the listed ways.** -/
theorem control_step {e : OrchestratorEvent ν} (hstep : s.step opts e = some s') :
    ControlChange opts s s' e := by
  cases transition hstep with
  | called kind name =>
      rcases s.startCall_cases kind name with ⟨-, -, hs⟩ | ⟨-, hs⟩ <;> rw [hs]
      · exact .quiet _ rfl rfl
      · obtain ⟨loads, count, loading, hl⟩ := s.ensureLoaded_frame
        rw [hl]
        exact .quiet _ rfl rfl
  | recorded delta => exact .accounted _ none (cleanSpendTotals delta) (.inl rfl) rfl
  | loadReturned l record ledger hp =>
      rcases s.loadReturned_cases l record ledger with ⟨-, hs⟩ | ⟨-, -, hs⟩ |
        ⟨saved, hgen, hparse, hs⟩ <;> rw [hs]
      · exact .quiet _ rfl rfl
      · obtain ⟨loads, loading, hl⟩ := (s.withSteps record).loadFailed_frame l
        rw [hl]
        exact .quiet _ rfl rfl
      · refine .restored l record ledger saved hp hgen hparse ?_
        show ((s.withSteps record).restore (record.getD .empty) ledger saved).control = _
        exact control_restore (s := s) (t := s.withSteps record) rfl _ _ _
  | loadThrew l hl hp =>
      obtain ⟨loads, loading, hs⟩ := s.loadFailed_frame l
      rw [hs]
      exact .quiet _ rfl rfl
  | callLoaded c kind name generation ref ok hc ho =>
      rcases s.callLoaded_cases c kind generation ok with ⟨-, hs⟩ | ⟨-, -, b, hs⟩ | ⟨-, -, hs⟩ <;>
        rw [hs] <;> exact .quiet _ rfl rfl
  | callChecked c kind name generation cp hc =>
      rcases s.callChecked_cases c name generation cp with ⟨-, hs⟩ | ⟨-, hs⟩ <;> rw [hs] <;>
        exact .quiet _ rfl rfl
  | entered c kind name cp hc =>
      rcases enter_cases opts s c kind name cp with ⟨e, -, hs⟩ | ⟨-, -, hs⟩ |
        ⟨err, -, -, -, hs⟩ | ⟨-, -, hrun, hstop, hs⟩ <;> rw [hs]
      · exact .quiet _ rfl rfl
      · exact .quiet _ rfl rfl
      · exact .quiet _ rfl rfl
      · exact .began c kind name cp hc hstop hrun rfl
  | dispatched c kind name cp r hc =>
      rcases s.dispatched_cases c name cp r with ⟨-, hs⟩ | ⟨taskId, result, -, -, hs⟩ |
        ⟨taskId, -, -, hs⟩ <;> rw [hs] <;> exact .quiet _ rfl rfl
  | waited c kind name cp taskId r hc =>
      rcases waited_cases opts s c name cp taskId r with ⟨rfl, hs⟩ | ⟨result, rfl, hs⟩ <;>
        rw [hs]
      · exact .quiet _ rfl rfl
      · refine .accounted _ (some name) _ (control_paid name (.inl result)) ?_
        simp only [obtained, hc]
  | continued c kind name cp value hc =>
      rcases continued_cases opts s c name cp value with ⟨hv, hs⟩ | ⟨result, -, hs⟩ <;>
        rw [hs]
      · exact .unaccounted c kind name cp value hc hv rfl
      · refine .accounted _ (some name) _ (control_paid name (.inr value)) ?_
        simp only [obtained, hc]
  | jobStarted job rest hj hp =>
      rcases s.jobStarted_cases job rest with ⟨owner, -, hs⟩ | ⟨-, hs⟩ <;> rw [hs]
      · obtain ⟨loads, count, loading, hl⟩ := s.ensureLoaded_frame
        rw [hl]
        exact .quiet _ rfl rfl
      · exact .wiped rfl
  | jobLoaded job rest ref ok hj hp ho =>
      rcases s.jobLoaded_cases job rest ok with ⟨-, hs⟩ | ⟨-, -, -, hs⟩ | ⟨-, -, hs⟩ <;> rw [hs]
      · obtain ⟨calls, hl⟩ := s.jobSettled_frame job rest false
        rw [hl]
        exact .quiet _ rfl rfl
      · obtain ⟨calls, hl⟩ := s.jobSettled_frame job rest true
        rw [hl]
        exact .quiet _ rfl rfl
      · exact .quiet _ rfl rfl
  | jobReturned job rest hj hp =>
      obtain ⟨calls, hl⟩ := s.jobSettled_frame job rest true
      rw [hl]
      exact .quiet _ rfl rfl
  | jobThrew job rest hj hp =>
      obtain ⟨calls, hl⟩ := s.jobSettled_frame job rest false
      rw [hl]
      exact .quiet _ rfl rfl
  | signalStopped => exact .signalled rfl
  | crashed budget => exact .crashed budget rfl
  | _ => exact .quiet _ rfl rfl

/-! ### Resets and crashes -/

/-- The event runs the reset of a `clear()`. -/
def Resets (s : Orchestrator ν) (e : OrchestratorEvent ν) : Prop :=
  e = .jobStarts ∧ ∃ job rest, s.jobs = job :: rest ∧ job.phase = .queued ∧ job.kind = .wipe

/-- The process ends, and the next one has an instance of its own. -/
def Crashes : OrchestratorEvent ν → Prop
  | .crash _ => True
  | _ => False

/-- The instance goes on, without a reset. -/
def GoesOn (s : Orchestrator ν) (e : OrchestratorEvent ν) : Prop := ¬ s.Resets e ∧ ¬ Crashes e

theorem resets_of_wiped (hstep : s.step opts .jobStarts = some s')
    (h : s'.control = s.reset.control) : s.Resets .jobStarts := by
  have hgen : s'.generation = s.generation + 1 := congrArg Control.generation h
  cases transition hstep with
  | jobStarted job rest hj hp =>
      rcases s.jobStarted_cases job rest with ⟨owner, -, hs⟩ | ⟨hkind, -⟩
      · obtain ⟨loads, count, loading, hl⟩ := s.ensureLoaded_frame
        rw [hs, hl] at hgen
        exact absurd hgen (Nat.ne_of_lt (Nat.lt_succ_self _))
      · exact ⟨rfl, job, rest, hj, hp, hkind⟩

/-- Without a reset and a crash the generation stays. -/
theorem generation_step {e : OrchestratorEvent ν} (hon : s.GoesOn e)
    (hstep : s.step opts e = some s') : s'.generation = s.generation := by
  have hsame : ∀ t : Orchestrator ν, s'.control = t.control → t.generation = s.generation →
      s'.generation = s.generation := by
    intro t heq hgen
    exact (congrArg Control.generation heq).trans hgen
  cases control_step hstep with
  | quiet _ h => exact hsame s h rfl
  | accounted _ step amount h =>
      rcases h with h | ⟨-, h⟩
      · obtain ⟨stop, reports, hs⟩ := (s.charged step amount).checkStop_frame
        rw [hs] at h
        exact hsame _ h rfl
      · exact hsame _ h rfl
  | unaccounted _ _ _ _ _ _ _ h => exact hsame _ h rfl
  | restored l record ledger saved _ _ _ h =>
      obtain ⟨stop, reports, hr⟩ := s.restore_frame (record.getD .empty) ledger saved
      rw [hr] at h
      exact hsame _ h rfl
  | began _ _ _ _ _ _ _ h => exact hsame _ h rfl
  | signalled h => exact hsame _ h rfl
  | wiped h => exact absurd (resets_of_wiped hstep h) hon.1
  | crashed _ _ => exact absurd trivial hon.2

/-- Without a reset and a crash `cleared` stays, and a reset sets it. -/
theorem cleared_step {e : OrchestratorEvent ν} (hon : ¬ Crashes e)
    (hstep : s.step opts e = some s') :
    s'.cleared = s.cleared ∨ s.Resets e ∧ s'.cleared = true := by
  cases transition hstep with
  | called kind name =>
      rcases s.startCall_cases kind name with ⟨-, -, hs⟩ | ⟨-, hs⟩ <;> rw [hs]
      · exact .inl rfl
      · obtain ⟨loads, count, loading, hl⟩ := s.ensureLoaded_frame
        rw [hl]
        exact .inl rfl
  | recorded delta =>
      obtain ⟨stop, reports, hs⟩ := s.recordSpend_frame delta
      rw [hs]
      exact .inl rfl
  | loadReturned l record ledger hp =>
      rcases s.loadReturned_cases l record ledger with ⟨-, hs⟩ | ⟨-, -, hs⟩ | ⟨saved, -, -, hs⟩ <;>
        rw [hs]
      · exact .inl rfl
      · obtain ⟨loads, loading, hl⟩ := (s.withSteps record).loadFailed_frame l
        rw [hl]
        exact .inl rfl
      · obtain ⟨stop, reports, hr⟩ :=
          (s.withSteps record).restore_frame (record.getD .empty) ledger saved
        rw [hr]
        exact .inl rfl
  | loadThrew l hl hp =>
      obtain ⟨loads, loading, hs⟩ := s.loadFailed_frame l
      rw [hs]
      exact .inl rfl
  | callLoaded c kind name generation ref ok hc ho =>
      rcases s.callLoaded_cases c kind generation ok with ⟨-, hs⟩ | ⟨-, -, b, hs⟩ | ⟨-, -, hs⟩ <;>
        rw [hs] <;> exact .inl rfl
  | callChecked c kind name generation cp hc =>
      rcases s.callChecked_cases c name generation cp with ⟨-, hs⟩ | ⟨-, hs⟩ <;>
        rw [hs] <;> exact .inl rfl
  | entered c kind name cp hc =>
      rcases enter_cases opts s c kind name cp with ⟨e, -, hs⟩ | ⟨-, -, hs⟩ |
        ⟨err, -, -, -, hs⟩ | ⟨-, -, -, -, hs⟩ <;> rw [hs] <;> exact .inl rfl
  | dispatched c kind name cp r hc =>
      rcases s.dispatched_cases c name cp r with ⟨-, hs⟩ | ⟨taskId, result, -, -, hs⟩ |
        ⟨taskId, -, -, hs⟩ <;> rw [hs] <;> exact .inl rfl
  | waited c kind name cp taskId r hc =>
      rcases waited_cases opts s c name cp taskId r with ⟨-, hs⟩ | ⟨result, -, hs⟩ <;> rw [hs]
      · exact .inl rfl
      · obtain ⟨totals, stop, reports, hp⟩ := paid_frame opts s name (.inl result)
        rw [hp]
        exact .inl rfl
  | continued c kind name cp value hc =>
      rcases continued_cases opts s c name cp value with ⟨-, hs⟩ | ⟨result, -, hs⟩ <;> rw [hs]
      · exact .inl rfl
      · obtain ⟨totals, stop, reports, hp⟩ := paid_frame opts s name (.inr value)
        rw [hp]
        exact .inl rfl
  | jobStarted job rest hj hp =>
      rcases s.jobStarted_cases job rest with ⟨owner, -, hs⟩ | ⟨hkind, hs⟩ <;> rw [hs]
      · obtain ⟨loads, count, loading, hl⟩ := s.ensureLoaded_frame
        rw [hl]
        exact .inl rfl
      · exact .inr ⟨⟨rfl, job, rest, hj, hp, hkind⟩, rfl⟩
  | jobLoaded job rest ref ok hj hp ho =>
      rcases s.jobLoaded_cases job rest ok with ⟨-, hs⟩ | ⟨-, -, -, hs⟩ | ⟨-, -, hs⟩ <;> rw [hs]
      · obtain ⟨calls, hl⟩ := s.jobSettled_frame job rest false
        rw [hl]
        exact .inl rfl
      · obtain ⟨calls, hl⟩ := s.jobSettled_frame job rest true
        rw [hl]
        exact .inl rfl
      · exact .inl rfl
  | jobReturned job rest hj hp =>
      obtain ⟨calls, hl⟩ := s.jobSettled_frame job rest true
      rw [hl]
      exact .inl rfl
  | jobThrew job rest hj hp =>
      obtain ⟨calls, hl⟩ := s.jobSettled_frame job rest false
      rw [hl]
      exact .inl rfl
  | crashed budget => exact absurd trivial hon
  | _ => exact .inl rfl

end Kaiban.Orchestrator
