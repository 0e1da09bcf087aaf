/-
The budget stop.

The stop is set exactly when the totals reach a ceiling: every operation that adds to the
totals ends with `checkStop`, and the totals only grow until a reset.  Work begins in one
place, behind `assertDispatchAllowed`, so a stopped workflow begins none.

An instance restores a record before any call has a map, so a record whose spend reaches a
ceiling stops it before it has begun anything.  A total that had become infinite is lost: the
record has `null` for it, and a restart reads it as zero.
-/
import Kaiban.Proofs.Budget
import Kaiban.Proofs.Orchestrator.FirstLoad

open JsString

namespace Kaiban.Orchestrator

section

variable {ν : Type} {opts : OrchestratorOptions ν} {s s' : Orchestrator ν}

/-! ### The stop and the totals -/

section

variable [Arithmetic]

/-- The stop is set exactly when a ceiling is reached, and was reported at most once. -/
structure StopState (budget : WorkflowBudget) (totals : RunningTotals)
    (stop : Option WorkflowStop) (reports : List WorkflowStop) : Prop where
  numbers : totals.AreNumbers
  reached : stop.isSome = true ↔ OverBudget totals budget
  few : reports.length ≤ 1
  unreported : stop = none → reports = []

def StopExact (s : Orchestrator ν) : Prop := StopState s.budget s.totals s.stop s.reports

theorem stopExact_checkStop (hnumbers : s.totals.AreNumbers)
    (hover : s.stop.isSome = true → OverBudget s.totals s.budget)
    (hfew : s.reports.length ≤ 1) (hun : s.stop = none → s.reports = []) :
    StopExact s.checkStop := by
  rcases s.checkStop_cases with ⟨hkept, h⟩ | ⟨detail, hnone, hdetail, h⟩ <;> rw [h]
  · refine ⟨hnumbers, ⟨hover, fun hreach => ?_⟩, hfew, hun⟩
    rcases hkept with hset | hwithin
    · exact hset
    · exact absurd hreach (overBudgetReason_eq_none.mp hwithin)
  · refine ⟨hnumbers, ⟨fun _ => ?_, fun _ => rfl⟩, ?_, fun h => absurd h (by simp)⟩
    · exact (overBudgetReason_isSome _ _).mp (by simp [hdetail])
    · simp [hun hnone]

/-- The stop is exact before a charge, and after the check that follows it. -/
theorem stopExact_charged (h : StopExact s) (step : Option JsString) (amount : SpendTotals) :
    StopExact (s.charged step amount).checkStop :=
  stopExact_checkStop (s.totals.areNumbers_add amount)
    (fun hset => (h.reached.mp hset).add h.numbers _) h.few h.unreported

theorem StopExact.restore (h : StopExact s) (record : Checkpoint) (ledger : List Charge)
    (saved : PersistedSpend) : StopExact (s.restore record ledger saved) := by
  unfold Orchestrator.restore
  rcases keepStop_cases _ saved with ⟨-, hs⟩ | ⟨detail, hnone, -, hdetail, hs⟩ <;> rw [hs]
  · exact stopExact_checkStop (s.totals.areNumbers_add saved.totals)
      (fun hset => (h.reached.mp hset).add h.numbers _) h.few h.unreported
  · refine stopExact_checkStop (s.totals.areNumbers_add saved.totals) (fun _ => ?_) h.few
      (fun hset => absurd hset (by simp))
    exact (overBudgetReason_isSome _ _).mp (by simp [hdetail])

/-- A record with a stop of its own is restored without a report. -/
theorem restore_reports (s : Orchestrator ν) (record : Checkpoint) (ledger : List Charge)
    {saved : PersistedSpend} (hsaved : saved.stop.isSome = true) :
    (s.restore record ledger saved).reports = s.reports := by
  unfold Orchestrator.restore
  rcases keepStop_cases _ saved with ⟨hkept, hs⟩ | ⟨detail, -, -, -, hs⟩ <;> rw [hs]
  · rcases checkStop_cases _ with ⟨-, h⟩ | ⟨detail, hnone, hdetail, -⟩
    · rw [h]
    · rcases hkept with hset | hno | hwithin
      · rw [hnone] at hset
        exact absurd hset (by simp)
      · rw [hno] at hsaved
        exact absurd hsaved (by simp)
      · rw [hwithin] at hdetail
        exact absurd hdetail (by simp)
  · rcases checkStop_cases _ with ⟨-, h⟩ | ⟨detail', hnone, -, -⟩
    · rw [h]
    · exact absurd hnone (by simp)

theorem stopExact_fresh (budget : WorkflowBudget) (store : Option Checkpoint)
    (ledger : List Charge) : StopExact (fresh budget store ledger : Orchestrator ν) := by
  refine ⟨RunningTotals.areNumbers_zero, ⟨fun h => absurd h (by simp [fresh]), fun h => ?_⟩,
    by simp [fresh], fun _ => rfl⟩
  exact absurd h (not_overBudget_zero budget)

theorem StopExact.of_control {t : Orchestrator ν} (hs : s.control = t.control)
    (h : StopExact t) : StopExact s := by
  simp only [control, Control.mk.injEq] at hs
  unfold StopExact
  rw [hs.1, hs.2.1, hs.2.2.1, hs.2.2.2.1]
  exact h

/-- **Every step keeps the stop exact.** -/
theorem stopExact_step {e : OrchestratorEvent ν} (h : StopExact s)
    (hstep : s.step opts e = some s') : StopExact s' := by
  cases control_step hstep with
  | quiet e hs => exact StopExact.of_control hs h
  | accounted e step amount hs =>
      rcases hs with hs | ⟨rfl, hs⟩
      · exact StopExact.of_control hs (stopExact_charged h step amount)
      · exact StopExact.of_control hs h
  | unaccounted c kind name cp value hc hv hs => exact StopExact.of_control hs h
  | restored l record ledger saved hp hgen hparse hs =>
      exact StopExact.of_control hs (h.restore _ ledger saved)
  | began c kind name cp hc hstop hrun hs => exact StopExact.of_control hs h
  | signalled hs => exact StopExact.of_control hs h
  | wiped hs => exact StopExact.of_control hs (stopExact_fresh (ν := ν) s.budget none [])
  | crashed budget hs =>
      rw [hs]
      exact stopExact_fresh budget _ _

end

/-! ### From a stop to the reset -/

/-- What a stopped instance keeps until its reset. -/
structure StillStopped (s s' : Orchestrator ν) : Prop where
  stop : s.stop.isSome = true → s'.stop.isSome = true
  reports : s.stop.isSome = true → s'.reports = s.reports
  begun : s.stop.isSome = true → s'.begun = s.begun

theorem StillStopped.of_control {t : Orchestrator ν} (h : s'.control = t.control)
    (hstop : s.stop.isSome = true → t.stop = s.stop)
    (hreports : s.stop.isSome = true → t.reports = s.reports)
    (hbegun : s.stop.isSome = true → t.begun = s.begun) : StillStopped s s' := by
  have hs : s'.stop = t.stop := congrArg Control.stop h
  have hr : s'.reports = t.reports := congrArg Control.reports h
  have hb : s'.begun = t.begun := congrArg Control.begun h
  refine ⟨fun hset => ?_, fun hset => hr.trans (hreports hset),
    fun hset => hb.trans (hbegun hset)⟩
  rw [hs, hstop hset]
  exact hset

section

variable [Arithmetic]

/-- A stop that is set is neither set again nor reported again. -/
theorem checkStop_stopped (h : s.stop.isSome = true) : s.checkStop = s := by
  rcases s.checkStop_cases with ⟨-, hs⟩ | ⟨detail, hnone, -⟩
  · exact hs
  · exact absurd h (by simp [hnone])

theorem restore_stopped (h : s.stop.isSome = true) (record : Checkpoint) (ledger : List Charge)
    (saved : PersistedSpend) : (s.restore record ledger saved).stop = s.stop ∧
      (s.restore record ledger saved).reports = s.reports := by
  have hkept : ∀ t : Orchestrator ν, t.stop = s.stop → t.reports = s.reports →
      t.checkStop.stop = s.stop ∧ t.checkStop.reports = s.reports := by
    intro t ht hr
    rw [checkStop_stopped (ht ▸ h)]
    exact ⟨ht, hr⟩
  unfold Orchestrator.restore
  rcases keepStop_cases _ saved with ⟨-, hs⟩ | ⟨detail, hnone, -⟩
  · rw [hs]
    exact hkept _ rfl rfl
  · exact absurd h (by simp [show s.stop = none from hnone])

theorem stillStopped_step {e : OrchestratorEvent ν} (hon : s.GoesOn e)
    (hstep : s.step opts e = some s') : StillStopped s s' := by
  cases control_step hstep with
  | quiet _ h => exact .of_control h (fun _ => rfl) (fun _ => rfl) (fun _ => rfl)
  | accounted _ step amount h =>
      rcases h with h | ⟨-, h⟩
      · have hkept : s.stop.isSome = true →
            (s.charged step amount).checkStop = s.charged step amount :=
          fun hset => checkStop_stopped hset
        refine .of_control h (fun hset => ?_) (fun hset => ?_) fun hset => ?_ <;>
          rw [hkept hset] <;> rfl
      · exact .of_control h (fun _ => rfl) (fun _ => rfl) (fun _ => rfl)
  | unaccounted _ _ _ _ _ _ _ h =>
      exact .of_control h (fun _ => rfl) (fun _ => rfl) (fun _ => rfl)
  | restored l record ledger saved _ _ _ h =>
      refine .of_control h (fun hset => (restore_stopped hset _ ledger saved).1)
        (fun hset => (restore_stopped hset _ ledger saved).2) fun _ => ?_
      obtain ⟨stop, reports, hr⟩ := s.restore_frame (record.getD .empty) ledger saved
      rw [hr]
  | began _ _ _ _ _ hnone _ _ =>
      exact ⟨fun h => absurd h (by simp [hnone]), fun h => absurd h (by simp [hnone]),
        fun h => absurd h (by simp [hnone])⟩
  | signalled h => exact .of_control h (fun _ => rfl) (fun _ => rfl) (fun _ => rfl)
  | wiped h => exact absurd (resets_of_wiped hstep h) hon.1
  | crashed _ _ => exact absurd trivial hon.2

/-- A stopped instance begins nothing and reports nothing until its reset. -/
theorem stillStopped_run {es : List (OrchestratorEvent ν)}
    (hon : Steps.Along (step opts) GoesOn s es) (hset : s.stop.isSome = true)
    (hrun : Steps.run (step opts) s es = some s') :
    s'.stop.isSome = true ∧ s'.reports = s.reports ∧ s'.begun = s.begun := by
  refine Steps.run_invariant (C := GoesOn) (P := fun t => t.stop.isSome = true ∧
    t.reports = s.reports ∧ t.begun = s.begun) ?_ ⟨hset, rfl, rfl⟩ hon hrun
  intro t e t' ht hc hstep
  have hkept := stillStopped_step hc hstep
  exact ⟨hkept.stop ht.1, (hkept.reports ht.1).trans ht.2.1, (hkept.begun ht.1).trans ht.2.2⟩

theorem aborted_step {e : OrchestratorEvent ν} (hon : ¬ Crashes e) (hset : s.aborted = true)
    (hstep : s.step opts e = some s') : s'.aborted = true ∧ s'.begun = s.begun := by
  have hkept : ∀ t : Orchestrator ν, s'.control = t.control → t.aborted = true →
      t.begun = s.begun → s'.aborted = true ∧ s'.begun = s.begun := by
    intro t h ha hb
    exact ⟨(congrArg Control.aborted h).trans ha, (congrArg Control.begun h).trans hb⟩
  cases control_step hstep with
  | quiet _ h => exact hkept s h hset rfl
  | accounted _ step amount h =>
      rcases h with h | ⟨-, h⟩
      · obtain ⟨stop, reports, hs⟩ := (s.charged step amount).checkStop_frame
        rw [hs] at h
        exact hkept _ h hset rfl
      · exact hkept _ h hset rfl
  | unaccounted _ _ _ _ _ _ _ h => exact hkept _ h hset rfl
  | restored l record ledger saved _ _ _ h =>
      obtain ⟨stop, reports, hr⟩ := s.restore_frame (record.getD .empty) ledger saved
      rw [hr] at h
      exact hkept _ h hset rfl
  | began _ _ _ _ _ _ hrun _ => exact absurd (hset.symm.trans hrun) (by simp)
  | signalled h => exact hkept _ h rfl rfl
  | wiped h => exact hkept _ h hset rfl
  | crashed _ _ => exact absurd trivial hon

/-- Once the signal has aborted nothing begins any more, whatever is cleared. -/
theorem aborted_run {es : List (OrchestratorEvent ν)} (hon : ∀ e ∈ es, ¬ Crashes e)
    (hset : s.aborted = true) (hrun : Steps.run (step opts) s es = some s') :
    s'.begun = s.begun := by
  refine (Steps.run_invariant (C := fun _ e => ¬ Crashes e)
    (P := fun t => t.aborted = true ∧ t.begun = s.begun) ?_ ⟨hset, rfl⟩
    (Steps.along_of_mem es s hon) hrun).2
  intro t e t' ht hc hstep
  obtain ⟨hkept, hbegun⟩ := aborted_step hc ht.1 hstep
  exact ⟨hkept, hbegun.trans ht.2⟩

end

/-! ### What is restored -/

/-- A record that is missing has no spend entry either. -/
theorem spendText_getD (record : Option Checkpoint) :
    spendText (some (record.getD .empty)) = spendText record := by
  cases record with
  | none => rfl
  | some r => rfl

section

variable [Arithmetic]

/-- What an instance has restored is in its totals, and has stopped it when it reaches a
ceiling. -/
structure SpendRestored (s : Orchestrator ν) : Prop where
  parsed : ∀ record, s.restoredRecord = some record → ∃ saved,
    parsePersistedSpend (spendText (some record)) = some saved ∧ s.restored = saved.totals
  unrestored : s.restoredRecord = none → s.restored = 0
  ceiling : OverBudget s.restored.running s.budget → s.stop.isSome = true ∧ s.begun = []
  uncharged : s.charges = [] → s.totals = s.restored.running

theorem spendRestored_fresh (budget : WorkflowBudget) (store : Option Checkpoint)
    (ledger : List Charge) : SpendRestored (fresh budget store ledger : Orchestrator ν) where
  parsed _ h := absurd h (by simp [fresh])
  unrestored _ := rfl
  ceiling h := absurd h (not_overBudget_zero budget)
  uncharged _ := rfl

theorem SpendRestored.of_control {t : Orchestrator ν} (hs : s.control = t.control)
    (h : SpendRestored t) : SpendRestored s := by
  simp only [control, Control.mk.injEq] at hs
  obtain ⟨hbudget, htotals, hstop, -, hbegun, -, -, hrecord, hrestored, hcharges, -⟩ := hs
  refine ⟨?_, ?_, ?_, ?_⟩
  · rw [hrecord, hrestored]
    exact h.parsed
  · rw [hrecord, hrestored]
    exact h.unrestored
  · rw [hrestored, hbudget, hstop, hbegun]
    exact h.ceiling
  · rw [hcharges, htotals, hrestored]
    exact h.uncharged

/-- A charge is none of what was restored. -/
theorem SpendRestored.charged (h : SpendRestored s) (step : Option JsString)
    (amount : SpendTotals) : SpendRestored (s.charged step amount) :=
  ⟨h.parsed, h.unrestored, h.ceiling,
    fun hnone => absurd hnone (by simp [Orchestrator.charged, charge])⟩

theorem SpendRestored.checkStop (h : SpendRestored s) : SpendRestored s.checkStop := by
  rcases s.checkStop_cases with ⟨-, hs⟩ | ⟨detail, -, -, hs⟩ <;> rw [hs]
  · exact h
  · exact ⟨h.parsed, h.unrestored, fun hover => ⟨rfl, (h.ceiling hover).2⟩, h.uncharged⟩

/-- **Every step keeps what was restored in the totals.** -/
theorem spendRestored_step {e : OrchestratorEvent ν} (h : SpendRestored s) (hexact : StopExact s)
    (hfirst : FirstLoad s) (hstep : s.step opts e = some s') : SpendRestored s' := by
  cases control_step hstep with
  | quiet _ hs => exact .of_control hs h
  | accounted _ step amount hs =>
      rcases hs with hs | ⟨-, hs⟩
      · exact .of_control hs (h.charged step amount).checkStop
      · refine .of_control hs ⟨h.parsed, h.unrestored, h.ceiling, fun hnone => ?_⟩
        exact absurd hnone (by simp [charge])
  | unaccounted _ _ name _ value _ _ hs =>
      refine .of_control hs ⟨h.parsed, h.unrestored, h.ceiling, fun hnone => ?_⟩
      exact absurd hnone (by simp [charge])
  | restored l record ledger saved hp hgen hparse hs =>
      obtain ⟨hnot, -, -⟩ := ready_restored hfirst.loading.ok hp hgen hparse hstep
      have hold := hfirst.untouched hnot
      refine .of_control hs ?_
      obtain ⟨stop, reports, hr⟩ := s.restore_frame (record.getD .empty) ledger saved
      have hexact' := hexact.restore (record.getD .empty) ledger saved
      rw [hr] at hexact' ⊢
      refine ⟨fun r hrecord => ?_, fun hnone => absurd hnone (by simp),
        fun hover => ⟨hexact'.reached.mpr ?_, hold.begun⟩, fun hnone => ?_⟩
      · obtain rfl := Option.some.inj hrecord
        exact ⟨saved, by rw [spendText_getD]; exact hparse, rfl⟩
      · exact hover.added (parsePersistedSpend_areNumbers hparse) s.totals
      · have hzero : s.totals = 0 := by
          rw [h.uncharged hnone, h.unrestored hold.unrestored]
          rfl
        show s.totals.add saved.totals = saved.totals.running
        rw [hzero, (parsePersistedSpend_areNumbers hparse).first]
  | began c kind name cp hc hnone hrun hs =>
      refine .of_control hs ⟨h.parsed, h.unrestored, fun hover => ?_, h.uncharged⟩
      exact absurd (h.ceiling hover).1 (by simp [hnone])
  | signalled hs => exact .of_control hs ⟨h.parsed, h.unrestored, h.ceiling, h.uncharged⟩
  | wiped hs =>
      refine .of_control hs ⟨fun _ hrecord => absurd hrecord (by simp [reset]), fun _ => rfl,
        fun hover => ?_, fun _ => rfl⟩
      exact absurd hover (not_overBudget_zero s.budget)
  | crashed budget hs =>
      rw [hs]
      exact spendRestored_fresh budget _ _

/-! ### The claim of the module -/

/-- The record was saved with these totals. -/
def SavedWith (record : Checkpoint) (totals : RunningTotals) : Prop :=
  totals.AreNumbers ∧ ∃ stop, spendText (some record) = some (persistedText totals stop)

/-- What holds of the stop in a state. -/
structure BudgetStopped (opts : OrchestratorOptions ν) (s : Orchestrator ν) : Prop where
  /-- `getStop()` is not null exactly when the totals reach a ceiling. -/
  reached : s.stop.isSome = true ↔ OverBudget s.totals s.budget
  /-- Until the reset the instance stays stopped and nothing begins. -/
  refused : ∀ es s', s.stop.isSome = true → Steps.Along (step opts) GoesOn s es →
    Steps.run (step opts) s es = some s' → s'.stop.isSome = true ∧ s'.begun = s.begun
  /-- After the stop signal nothing begins. -/
  aborted : ∀ es s', s.aborted = true → (∀ e ∈ es, ¬ Crashes e) →
    Steps.run (step opts) s es = some s' → s'.begun = s.begun
  /-- A step that is there is answered with what it holds, stopped or not. -/
  replayed : ∀ c kind name cp entry, s.calls c = some ⟨kind, name, .started cp⟩ →
    (s.maps cp).get name = some entry → ∃ s', s.step opts (.enters c) = some s' ∧
      s'.calls c = some ⟨kind, name, replay kind entry.result⟩
  /-- What the spend entry of a record means under the budget of the instance. -/
  resumed : ∀ record, s.restoredRecord = some record → ∃ saved,
    parsePersistedSpend (spendText (some record)) = some saved ∧
      (OverBudget saved.totals.running s.budget → s.begun = []) ∧
      (¬ OverBudget saved.totals.running s.budget → s.charges = [] → s.stop = none)
  /-- What the totals a record was saved with mean under the budget of the instance. -/
  savedWith : ∀ record totals, s.restoredRecord = some record → SavedWith record totals →
    (OverBudget totals s.budget → s.begun = []) ∧
      (¬ OverBudget totals s.budget → s.charges = [] → s.stop = none)
  /-- `onStopped` is called at most once between two resets. -/
  once : s.reports.length ≤ 1
  /-- It is not called for a stop that comes from a record with a stop of its own. -/
  unreported : ∀ l record ledger saved s', (s.loads l).phase = .read record ledger →
    parsePersistedSpend (spendText record) = some saved → saved.stop.isSome = true →
    s.stop = none → s.step opts (.loadReturns l) = some s' → s'.stop.isSome = true →
    ∀ es s'', Steps.Along (step opts) GoesOn s' es →
      Steps.run (step opts) s' es = some s'' → s''.reports = []

/-- A step that is there is replayed. -/
theorem enters_replayed {c : ℕ} {kind : CallKind} {name : JsString} {cp : ℕ}
    {entry : StepCheckpoint} (hc : s.calls c = some ⟨kind, name, .started cp⟩)
    (hget : (s.maps cp).get name = some entry) : ∃ s', s.step opts (.enters c) = some s' ∧
      s'.calls c = some ⟨kind, name, replay kind entry.result⟩ := by
  refine ⟨s.enter opts c kind name cp, by simp only [step, hc], ?_⟩
  rcases enter_cases opts s c kind name cp with ⟨e, he, hs⟩ | ⟨hnone, -⟩ | ⟨err, hnone, -⟩ |
    ⟨hnone, -⟩
  · obtain rfl := Option.some.inj (hget.symm.trans he)
    rw [hs]
    exact setPhase_self hc _
  all_goals exact absurd (hget.symm.trans hnone) (by simp)

/-- A record that brings its own stop brings no report. -/
theorem loadReturns_unreported (hexact : StopExact s) {l : ℕ} {record : Option Checkpoint}
    {ledger : List Charge} {saved : PersistedSpend} (hp : (s.loads l).phase = .read record ledger)
    (hparse : parsePersistedSpend (spendText record) = some saved)
    (hsaved : saved.stop.isSome = true) (hnone : s.stop = none)
    (hstep : s.step opts (.loadReturns l) = some s') : s'.reports = [] := by
  have hs : s' = s.loadReturned l record ledger := by
    simp only [step, hp] at hstep
    exact (Option.some.inj hstep).symm
  have hempty : s.reports = [] := hexact.unreported hnone
  rcases s.loadReturned_cases l record ledger with ⟨-, h⟩ | ⟨-, hno, -⟩ | ⟨saved', -, hparse', h⟩
  · rw [hs, h]
    exact hempty
  · exact absurd (hparse.symm.trans hno) (by simp)
  · obtain rfl := Option.some.inj (hparse.symm.trans hparse')
    rw [hs, h]
    exact (restore_reports (s.withSteps record) _ ledger hsaved).trans hempty

/-! ### The condition -/

/-- A member of the spend entry. -/
def entryMember (record : Checkpoint) (name : JsString) : Option Json :=
  member ((spendText (some record)).bind Json.parse) name

/-- The spend entry says `null` for no total for which the budget has a ceiling.  It says
`null` for a total that had become infinite when the record was saved. -/
structure EntryFinite (record : Checkpoint) (budget : WorkflowBudget) : Prop where
  tokens : (isCapped budget.maxTokens).isSome = true →
    entryMember record (js "totalTokens") ≠ some .null
  cost : (isCapped budget.maxCostUsd).isSome = true →
    entryMember record (js "estimatedCost") ≠ some .null

theorem SavedWith.finite {record : Checkpoint} {totals : RunningTotals} {budget : WorkflowBudget}
    (hw : SavedWith record totals) (h : EntryFinite record budget) :
    FiniteWhereCapped totals budget := by
  obtain ⟨-, stop, htext⟩ := hw
  have hmember : ∀ name, entryMember record name
      = member (Json.parse (persistedText totals stop)) name := by
    intro name
    unfold entryMember
    rw [htext]
    rfl
  exact ⟨fun hcapped htop => h.tokens hcapped ((hmember _).trans (member_persistedText.1 htop)),
    fun hcapped htop => h.cost hcapped ((hmember _).trans (member_persistedText.2 htop))⟩

/-- No load gives back a record whose spend entry says `null` for a total that the budget of
the instance has a ceiling for. -/
def LoadsFinite (s : Orchestrator ν) : OrchestratorEvent ν → Prop
  | .loadReturns l => ∀ record ledger, (s.loads l).phase = .read (some record) ledger →
      (s.loads l).generation = s.generation → EntryFinite record s.budget
  | _ => True

/-- The record that was restored has such an entry. -/
def RestoredFinite (s : Orchestrator ν) : Prop :=
  ∀ record, s.restoredRecord = some record → EntryFinite record s.budget

theorem RestoredFinite.of_none (h : s.restoredRecord = none) : RestoredFinite s :=
  fun record hrecord => absurd (h.symm.trans hrecord) (by simp)

theorem RestoredFinite.of_control {t : Orchestrator ν} (h : RestoredFinite s)
    (hs : s'.control = t.control) (hrecord : t.restoredRecord = s.restoredRecord)
    (hbudget : t.budget = s.budget) : RestoredFinite s' := by
  have h1 : s'.restoredRecord = t.restoredRecord := congrArg Control.restoredRecord hs
  have h2 : s'.budget = t.budget := congrArg Control.budget hs
  intro record hr
  rw [h1, hrecord] at hr
  rw [h2, hbudget]
  exact h record hr

theorem restoredFinite_step {e : OrchestratorEvent ν} (h : RestoredFinite s)
    (hfinite : LoadsFinite s e) (hstep : s.step opts e = some s') : RestoredFinite s' := by
  cases control_step hstep with
  | quiet _ hs => exact h.of_control hs rfl rfl
  | accounted _ step amount hs =>
      rcases hs with hs | ⟨-, hs⟩
      · obtain ⟨stop, reports, hcheck⟩ := (s.charged step amount).checkStop_frame
        rw [hcheck] at hs
        exact h.of_control hs rfl rfl
      · exact h.of_control hs rfl rfl
  | unaccounted _ _ _ _ _ _ _ hs => exact h.of_control hs rfl rfl
  | restored l record ledger saved hp hgen _ hs =>
      obtain ⟨stop, reports, hr⟩ := s.restore_frame (record.getD .empty) ledger saved
      rw [hr] at hs
      have h1 : s'.restoredRecord = some (record.getD .empty) :=
        congrArg Control.restoredRecord hs
      have h2 : s'.budget = s.budget := congrArg Control.budget hs
      intro r hrecord
      obtain rfl := Option.some.inj (h1.symm.trans hrecord)
      rw [h2]
      cases record with
      | none =>
          have hnone : ∀ name, entryMember .empty name ≠ some .null := by
            intro name
            simp [entryMember, spendText, OrderedMap.get_empty, member]
          exact ⟨fun _ => hnone _, fun _ => hnone _⟩
      | some r => exact hfinite r ledger hp hgen
  | began _ _ _ _ _ _ _ hs => exact h.of_control hs rfl rfl
  | signalled hs => exact h.of_control hs rfl rfl
  | wiped hs =>
      have hnone : s'.restoredRecord = none := congrArg Control.restoredRecord hs
      exact .of_none hnone
  | crashed budget hs =>
      rw [hs]
      exact .of_none rfl

/-- What the steps keep. -/
structure StopKept (s : Orchestrator ν) : Prop where
  exact : StopExact s
  first : FirstLoad s
  restored : SpendRestored s
  finite : RestoredFinite s

theorem stopKept_fresh (budget : WorkflowBudget) (store : Option Checkpoint)
    (ledger : List Charge) : StopKept (fresh budget store ledger : Orchestrator ν) where
  exact := stopExact_fresh budget store ledger
  first := firstLoad_fresh budget store ledger
  restored := spendRestored_fresh budget store ledger
  finite := .of_none rfl

theorem stopKept_step {e : OrchestratorEvent ν} (h : StopKept s) (hfinite : LoadsFinite s e)
    (hstep : s.step opts e = some s') : StopKept s' where
  exact := stopExact_step h.exact hstep
  first := firstLoad_step h.first hstep
  restored := spendRestored_step h.restored h.exact h.first hstep
  finite := restoredFinite_step h.finite hfinite hstep

/-- What a restored spend means for the stop. -/
theorem StopKept.resumed (h : StopKept s) {record : Checkpoint}
    (hrecord : s.restoredRecord = some record) : ∃ saved,
    parsePersistedSpend (spendText (some record)) = some saved ∧
      (OverBudget saved.totals.running s.budget → s.begun = []) ∧
      (¬ OverBudget saved.totals.running s.budget → s.charges = [] → s.stop = none) := by
  obtain ⟨saved, hparse, hsaved⟩ := h.restored.parsed record hrecord
  refine ⟨saved, hparse, fun hover => (h.restored.ceiling (hsaved ▸ hover)).2,
    fun hwithin hnone => ?_⟩
  have htotals : s.totals = saved.totals.running := (h.restored.uncharged hnone).trans (by
    rw [hsaved])
  rw [← Option.not_isSome_iff_eq_none, h.exact.reached, htotals]
  exact hwithin

theorem StopKept.budgetStopped (h : StopKept s) : BudgetStopped opts s where
  reached := h.exact.reached
  refused es s' hset hon hrun := by
    obtain ⟨hstop, -, hbegun⟩ := stillStopped_run hon hset hrun
    exact ⟨hstop, hbegun⟩
  aborted es s' hset hon hrun := aborted_run hon hset hrun
  replayed c kind name cp entry hc hget := enters_replayed hc hget
  resumed record hrecord := h.resumed hrecord
  savedWith record totals hrecord hw := by
    obtain ⟨saved, hparse, hover, hwithin⟩ := h.resumed hrecord
    obtain ⟨hnumbers, stop, htext⟩ := id hw
    rw [htext, parsePersistedSpend_text hnumbers] at hparse
    obtain rfl := Option.some.inj hparse
    exact ⟨fun hreach => hover (hreach.read (hw.finite (h.finite record hrecord))),
      fun hnot => hwithin fun hread => hnot hread.of_read⟩
  once := h.exact.few
  unreported l record ledger saved s' hp hparse hsaved hnone hstep hset es s'' hon hrun := by
    have hempty := loadReturns_unreported h.exact hp hparse hsaved hnone hstep
    exact (stillStopped_run hon hset hrun).2.1.trans hempty

end

end

/-! ### Doubles -/

attribute [local instance] Arithmetic.double

/-- **The budget stop is exact, lasts until the reset, outlives a restart and is reported
once**, in every state of a run whose loads give back no record that was saved with an infinite
total for which there is a ceiling. -/
theorem budget_stop {ν : Type} {opts : OrchestratorOptions ν} {s : Orchestrator ν}
    {budget : WorkflowBudget} {store : Option Checkpoint} {ledger : List Charge}
    {es : List (OrchestratorEvent ν)}
    (hfinite : Steps.Along (step opts) LoadsFinite (fresh budget store ledger) es)
    (hrun : Steps.run (step opts) (fresh budget store ledger) es = some s) :
    BudgetStopped opts s := by
  have hkept : StopKept s := Steps.run_invariant
    (fun t e t' ht hfinite hstep => stopKept_step ht hfinite hstep)
    (stopKept_fresh budget store ledger) hfinite hrun
  exact hkept.budgetStopped

/-- A spend that reaches the ceiling, a step that is refused, and a restart. -/
def overspent : List (OrchestratorEvent Unit) :=
  [.recordSpend ⟨JsNumber.ofInt 12, JsNumber.ofInt 0⟩, .call .runStep (js "plan"), .storeReads 0,
    .loadReturns 0, .loaded 0, .checked 0, .enters 0, .jobStarts, .jobLoaded, .storeActs,
    .jobReturns, .crash ⟨JsNumber.ofInt 10, JsNumber.ofInt 0⟩, .call .runStep (js "plan"),
    .storeReads 0, .loadReturns 0, .loaded 0, .checked 0, .enters 0]

def notNull : Option Json → Bool
  | some .null => false
  | _ => true

theorem ne_of_notNull {v : Option Json} (h : notNull v = true) : v ≠ some .null := by
  rintro rfl
  exact absurd h (by simp [notNull])

/-- The entry of a record has no `null` for a total. -/
def entryNumbers (record : Checkpoint) : Bool :=
  notNull (entryMember record (js "totalTokens")) &&
    notNull (entryMember record (js "estimatedCost"))

/-- A load that returns a record has read such an entry. -/
def readsNumbers (s : Orchestrator Unit) : OrchestratorEvent Unit → Bool
  | .loadReturns l =>
      match (s.loads l).phase with
      | .read (some record) _ => entryNumbers record
      | _ => true
  | _ => true

theorem loadsFinite_of_reads {s : Orchestrator Unit} {e : OrchestratorEvent Unit}
    (h : readsNumbers s e = true) : LoadsFinite s e := by
  cases e with
  | loadReturns l =>
      intro record ledger hp _
      simp only [readsNumbers, hp, entryNumbers, Bool.and_eq_true] at h
      exact ⟨fun _ => ne_of_notNull h.1, fun _ => ne_of_notNull h.2⟩
  | _ => trivial

theorem budget_stop_restarted : ∃ s, Steps.run (step plainOptions)
    (fresh ⟨JsNumber.ofInt 10, JsNumber.ofInt 0⟩ none []) overspent = some s ∧
      s.stop.isSome = true ∧ BudgetStopped plainOptions s := by
  have hsome : (Steps.run (step plainOptions)
      (fresh ⟨JsNumber.ofInt 10, JsNumber.ofInt 0⟩ none []) overspent).any
      (fun s => s.stop.isSome) = true := by
    decide +kernel
  have halong : Steps.Along (step plainOptions) (fun s e => readsNumbers s e = true)
      (fresh ⟨JsNumber.ofInt 10, JsNumber.ofInt 0⟩ none []) overspent := by
    decide +kernel
  obtain ⟨s, hrun, hset⟩ := (Option.any_eq_true _ _).mp hsome
  exact ⟨s, hrun, hset, budget_stop (halong.mono fun _ _ => loadsFinite_of_reads) hrun⟩

/-- The tokens of two steps overflow, and the process is started again. -/
def overflown : List (OrchestratorEvent Unit) :=
  [.recordSpend ⟨.finite (Decimal.ofParts 1 308), JsNumber.ofInt 0⟩,
    .recordSpend ⟨.finite (Decimal.ofParts 1 308), JsNumber.ofInt 0⟩, .jobStarts, .storeReads 0,
    .loadReturns 0, .jobLoaded, .storeActs, .jobReturns,
    .crash ⟨JsNumber.ofInt 1000, JsNumber.ofInt 0⟩, .call .runStep (js "plan"), .storeReads 0,
    .loadReturns 0, .loaded 0, .checked 0, .enters 0]

/-- The restarted workflow has lost its spend, and begins a step. -/
theorem overflow_not_stopped : ∃ s, Steps.run (step plainOptions)
    (fresh ⟨JsNumber.ofInt 1000, JsNumber.ofInt 0⟩ none []) overflown = some s ∧
      ¬ BudgetStopped plainOptions s := by
  have hends : (Steps.run (step plainOptions)
      (fresh ⟨JsNumber.ofInt 1000, JsNumber.ofInt 0⟩ none []) overflown).any (fun s =>
        s.begun = [0] ∧ (isCapped s.budget.maxTokens).isSome ∧
        s.restoredRecord.any fun r => spendText (some r) = some (persistedText ⟨⊤, (0 : Amount)⟩
          (some (js "token budget exceeded (1e+308 >= 1000)")))) = true := by
    decide +kernel
  obtain ⟨s, hrun, hs⟩ := (Option.any_eq_true _ _).mp hends
  obtain ⟨hbegun, hcapped, hrecord⟩ := of_decide_eq_true hs
  obtain ⟨c, hc⟩ := Option.isSome_iff_exists.mp hcapped
  obtain ⟨record, hr, htext⟩ := (Option.any_eq_true _ _).mp hrecord
  have hnumbers : RunningTotals.AreNumbers ⟨⊤, (0 : Amount)⟩ :=
    ⟨fun a ha => absurd ha WithTop.top_ne_coe, RunningTotals.areNumbers_zero.estimatedCost⟩
  refine ⟨s, hrun, fun h => ?_⟩
  have hnone := (h.savedWith record _ hr ⟨hnumbers, _, of_decide_eq_true htext⟩).1
    (.inl ⟨c, hc, le_top⟩)
  rw [hbegun] at hnone
  exact absurd hnone (by simp)

end Kaiban.Orchestrator
