/-
What a record that is saved has.

It has every step that was loaded and every step that was written since, so no step of an
earlier record is lost, and its spend entry is what was restored and what was charged since.
When the record that was loaded had been paid for, so has every step of the new one: the
spend entry is the sum of charges that have the charge of the step among them.
-/
import Kaiban.Proofs.CheckpointStore
import Kaiban.Proofs.Orchestrator.Stored
import Kaiban.Proofs.Orchestrator.Tally

open JsString

namespace Kaiban.Orchestrator

attribute [local instance] Arithmetic.exact

variable {ν : Type} {opts : OrchestratorOptions ν} {s s' : Orchestrator ν}

/-! ### What is asked of a save -/

/-- What is charged to the instance after a step; a new instance begins with nothing. -/
def chargesAfter (opts : OrchestratorOptions ν) (s : Orchestrator ν) :
    OrchestratorEvent ν → List Charge
  | .crash _ => []
  | e => s.charges ++ obtained opts s e

/-- What holds of a record the instance saves. -/
structure RecordKept (s : Orchestrator ν) (record : Checkpoint) : Prop where
  /-- It has the steps that were loaded, and its spend is the one restored with them and every
  charge since. -/
  loaded : ∃ loaded saved, s.restoredRecord = some loaded ∧
    parsePersistedSpend (spendText (some loaded)) = some saved ∧
    (∀ name entry, name ≠ spendEntry → loaded.get name = some entry →
      record.get name = some entry) ∧
    ∃ stop, parsePersistedSpend (spendText (some record))
      = some ⟨saved.totals + spent s.charges, stop⟩
  /-- It has the steps of every record saved earlier, as they were then or as another call of
  the name has written them. -/
  earlier : ∀ call ∈ s.storeCalls, ∀ before, call.record = some before →
    ∀ name entry, name ≠ spendEntry → before.get name = some entry →
      record.get name = some entry ∨
        ∃ w ∈ s.writes, w.name = name ∧ record.get name = some w.entry

/-- A step charges what it brings, and what it saves is kept. -/
structure SavesAll (opts : OrchestratorOptions ν) (s : Orchestrator ν)
    (e : OrchestratorEvent ν) : Prop where
  charged : ∀ s', s.step opts e = some s' → s'.charges = chargesAfter opts s e
  saved : ∀ s' id record, s.step opts e = some s' →
    s'.storeCalls = s.storeCalls ++ [⟨id, some record⟩] → RecordKept s record

/-- A step whose charge is in the ledger, or that has the result of such a step's task. -/
inductive PaidFor (opts : OrchestratorOptions ν) (ledger : List Charge) :
    JsString → StepCheckpoint → Prop
  | routed (name taskId result : JsString)
      (h : ⟨some name, costOf opts (.inl result)⟩ ∈ ledger) :
      PaidFor opts ledger name ⟨taskId, some result⟩
  | produced (name : JsString) (value : ν) (result : Option JsString)
      (hv : opts.stringify value = some result)
      (h : ⟨some name, costOf opts (.inr value)⟩ ∈ ledger) :
      PaidFor opts ledger name ⟨js "memoize:" ++ name, result⟩
  | reused (name other taskId result : JsString)
      (h : PaidFor opts ledger other ⟨taskId, some result⟩) :
      PaidFor opts ledger name ⟨taskId, some result⟩

/-- The spend entry of the record is the sum of the ledger, which has the charge of every
step. -/
def PaidUp (opts : OrchestratorOptions ν) (record : Option Checkpoint) (ledger : List Charge) :
    Prop :=
  (∃ stop, parsePersistedSpend (spendText record) = some ⟨spent ledger, stop⟩) ∧
    ∀ name entry, name ≠ spendEntry → (record.getD .empty).get name = some entry →
      PaidFor opts ledger name entry

/-- What a step saves is paid for by the charges behind its spend. -/
def SavesPaid (opts : OrchestratorOptions ν) (s : Orchestrator ν) (e : OrchestratorEvent ν) :
    Prop :=
  ∀ s' id record, s.step opts e = some s' →
    s'.storeCalls = s.storeCalls ++ [⟨id, some record⟩] →
    PaidUp opts (some record) (s.inherited ++ s.charges)

/-- A store that has nothing is paid for. -/
theorem paidUp_nothing (opts : OrchestratorOptions ν) : PaidUp opts none [] := by
  exact ⟨⟨none, parsePersistedSpend_none⟩,
    fun name entry _ h => absurd h (by simp [OrderedMap.get_empty])⟩

theorem PaidFor.mono {ledger more : List Charge} {name : JsString} {entry : StepCheckpoint}
    (h : PaidFor opts ledger name entry) (hmore : ledger ⊆ more) :
    PaidFor opts more name entry := by
  induction h with
  | routed name taskId result h => exact .routed name taskId result (hmore h)
  | produced name value result hv h => exact .produced name value result hv (hmore h)
  | reused name other taskId result _ ih => exact .reused name other taskId result ih

/-! ### The steps that are written are new -/

/-- No call at work has the name of a step that was loaded. -/
structure NewSteps (s : Orchestrator ν) : Prop where
  working : ∀ c kind name phase cp, s.calls c = some ⟨kind, name, phase⟩ →
    phase.workMap = some cp → s.base.get name = none
  written : ∀ w ∈ s.writes, s.base.get w.name = none

theorem newSteps_fresh (budget : WorkflowBudget) (store : Option Checkpoint)
    (ledger : List Charge) : NewSteps (fresh budget store ledger : Orchestrator ν) where
  working _ _ _ _ _ h := absurd h (by simp [fresh])
  written _ h := absurd h List.not_mem_nil

/-- A name that is not in memory was not loaded. -/
theorem Stored.unloaded (h : Stored s) (hready : s.Ready) {name : JsString}
    (hget : s.steps.get name = none) : s.base.get name = none := by
  by_contra hne
  have hsome := get_applyWrites_isSome s.writes (Option.ne_none_iff_isSome.mp hne)
  rw [← applied_all, ← h.steps hready, hget] at hsome
  exact absurd hsome (by simp)

theorem newSteps_step {e : OrchestratorEvent ν} (h : NewSteps s) (hu : Unwiped s)
    (hstored : Stored s) (hstep : s.step opts e = some s') : NewSteps s' := by
  rcases hu.kept hstep with ⟨budget, rfl⟩ | ⟨hon, -⟩
  · exact newSteps_fresh budget s.store s.storeLedger
  by_cases hready : s.Ready
  · have hbase : s'.base = s.base := by
      unfold base
      rw [(hu.restoredRecord_step hon hready hstep).1]
    refine ⟨fun c kind name phase cp hc hwork => ?_, fun w hw => ?_⟩ <;> rw [hbase]
    · cases call_step hstep c with
      | same h' => exact h.working c kind name phase cp (h'.symm.trans hc) hwork
      | called _ _ _ _ _ _ hphase h' =>
          obtain ⟨-, -, rfl⟩ := StepCall.mk.inj (Option.some.inj (hc.symm.trans h'))
          rcases hphase with rfl | ⟨rfl, -⟩ <;> exact absurd hwork (by simp [CallPhase.workMap])
      | moved kind' name' phase' phase'' hold hmoves h' =>
          obtain ⟨rfl, rfl, rfl⟩ := StepCall.mk.inj (Option.some.inj (hc.symm.trans h'))
          cases hmoves with
          | waits => exact h.working c _ _ _ cp hold hwork
          | produced => exact h.working c _ _ _ cp hold hwork
          | _ => exact absurd hwork (by simp [CallPhase.workMap])
      | began kind' name' cp' he hold hget hname hbegun h' =>
          obtain ⟨-, rfl, -⟩ := StepCall.mk.inj (Option.some.inj (hc.symm.trans h'))
          obtain ⟨-, rfl⟩ := hu.given c _ cp' hold rfl
          exact hstored.unloaded hready hget
      | stored _ _ _ _ _ _ _ _ h' =>
          obtain ⟨-, -, rfl⟩ := StepCall.mk.inj (Option.some.inj (hc.symm.trans h'))
          exact absurd hwork (by simp [CallPhase.workMap])
      | signalled _ _ _ _ h' =>
          obtain ⟨-, -, rfl⟩ := StepCall.mk.inj (Option.some.inj (hc.symm.trans h'))
          exact absurd hwork (by simp [CallPhase.workMap])
      | crashed budget heq =>
          subst heq
          exact absurd hc (by simp [fresh])
    · cases maps_step hstep with
      | kept _ hwritten => exact h.written w (hwritten ▸ hw)
      | wrote c kind name phase cp entry hc hwrites _ _ hwritten _ =>
          rw [hwritten] at hw
          rcases List.mem_append.mp hw with hw | hw
          · exact h.written w hw
          · rw [List.mem_singleton.mp hw]
            exact h.working c kind name phase cp hc hwrites.workMap
      | crashed budget heq =>
          subst heq
          exact absurd hw List.not_mem_nil
  · -- Nothing is at work or written before the record is loaded.
    have hun := hu.first.untouched hready
    refine ⟨fun c kind name phase cp hc hwork => ?_, fun w hw => ?_⟩
    · have hnone := hun.unheld_step hu.first.loading hready hstep c _ hc
      exact absurd (CallPhase.heldMap_of_workMap hwork) (by simp [hnone])
    · cases maps_step hstep with
      | kept _ hwritten =>
          rw [hwritten, hun.unwritten hu.first.held] at hw
          exact absurd hw List.not_mem_nil
      | wrote c kind name phase cp entry hc hwrites _ _ _ _ =>
          have hheld := CallPhase.heldMap_of_workMap hwrites.workMap
          exact absurd (hun.unheld c _ hc) (by simp [hheld])
      | crashed budget heq =>
          subst heq
          exact absurd hw List.not_mem_nil

/-- The steps that were loaded are in memory as they were. -/
theorem NewSteps.get_applied (h : NewSteps s) {name : JsString} {entry : StepCheckpoint}
    (hget : s.base.get name = some entry) (n : ℕ) :
    (s.applied n).get name = some entry := by
  unfold applied
  rw [get_applyWrites_of_ne fun w hw hname => ?_, hget]
  have hnone := h.written w (List.mem_of_mem_take hw)
  rw [hname, hget] at hnone
  exact absurd hnone (by simp)

/-! ### The records that were saved -/

/-- A record that was saved has the steps there were then. -/
def Taken (s : Orchestrator ν) : Prop :=
  ∀ call ∈ s.storeCalls, ∀ record, call.record = some record →
    s.Ready ∧ ∃ n ≤ s.writes.length, SameSteps record (s.applied n)

/-- What the instance takes is all there is in memory. -/
theorem Stored.snapshot (h : Stored s) (hready : s.Ready) :
    SameSteps s.snapshot.record (s.applied s.writes.length) := by
  intro name hname
  show (s.steps.set spendEntry _).get name = _
  rw [OrderedMap.get_set_ne _ _ hname, h.steps hready]

theorem taken_step {e : OrchestratorEvent ν} (h : Taken s) (hu : Unwiped s) (hstored : Stored s)
    (hstep : s.step opts e = some s') : Taken s' := by
  intro call hcall record hrecord
  rcases hu.kept hstep with ⟨budget, rfl⟩ | ⟨hon, hkept⟩
  · exact absurd hcall List.not_mem_nil
  rcases writes_append hstep with ⟨budget, rfl⟩ | ⟨ws, hwrites⟩
  · exact absurd hcall List.not_mem_nil
  have hgrown : ∀ n ≤ s.writes.length, s.Ready → SameSteps record (s.applied n) →
      s'.Ready ∧ ∃ n ≤ s'.writes.length, SameSteps record (s'.applied n) := by
    intro n hn hready hsame
    have hloaded := (hu.restoredRecord_step hon hready hstep).1
    refine ⟨(hkept hready).1, n, ?_, ?_⟩
    · rw [hwrites, List.length_append]
      exact hn.trans (Nat.le_add_right _ _)
    · rw [applied_of_append hloaded hwrites hn]
      exact hsame
  have hold : call ∈ s.storeCalls →
      s'.Ready ∧ ∃ n ≤ s'.writes.length, SameSteps record (s'.applied n) := by
    intro hmem
    obtain ⟨hready, n, hn, hsame⟩ := h call hmem record hrecord
    exact hgrown n hn hready hsame
  have hsame : s'.storeCalls = s.storeCalls →
      s'.Ready ∧ ∃ n ≤ s'.writes.length, SameSteps record (s'.applied n) :=
    fun hcalls => hold (hcalls ▸ hcall)
  cases chain_step hstep with
  | quiet _ heq => exact hsame (congrArg Chain.storeCalls heq)
  | queued _ _ _ _ heq => exact hsame (congrArg Chain.storeCalls heq)
  | loading _ _ _ _ _ _ heq => exact hsame (congrArg Chain.storeCalls heq)
  | clearing job rest hj _ hkind _ => exact absurd hkind (hu.jobs job (hj ▸ List.mem_cons_self)).1
  | writing job rest ref hj hp ho _ heq =>
      have hcalls : s'.storeCalls = s.storeCalls ++ [⟨job.id, some s.snapshot.record⟩] :=
        congrArg Chain.storeCalls heq
      rw [hcalls] at hcall
      rcases List.mem_append.mp hcall with hmem | hmem
      · exact hold hmem
      · rw [List.mem_singleton.mp hmem] at hrecord
        obtain rfl := Option.some.inj hrecord
        have hready := hu.job_ready hj hp ho
        exact hgrown _ le_rfl hready (hstored.snapshot hready)
  | saved _ _ _ _ _ heq => exact hsame (congrArg Chain.storeCalls heq)
  | wiped _ _ _ _ heq => exact hsame (congrArg Chain.storeCalls heq)
  | ended _ _ _ _ _ _ heq => exact hsame (congrArg Chain.storeCalls heq)
  | crashed _ _ => exact absurd trivial hon

/-- A save that calls the store takes what is in memory. -/
theorem Unwiped.saves {e : OrchestratorEvent ν} (hu : Unwiped s) {id : ℕ} {record : Checkpoint}
    (hstep : s.step opts e = some s')
    (hcalls : s'.storeCalls = s.storeCalls ++ [⟨id, some record⟩]) :
    s.Ready ∧ record = s.snapshot.record := by
  have hsame : s'.storeCalls ≠ s.storeCalls := by
    rw [hcalls]
    simp
  cases chain_step hstep with
  | quiet _ heq => exact absurd (congrArg Chain.storeCalls heq) hsame
  | queued _ _ _ _ heq => exact absurd (congrArg Chain.storeCalls heq) hsame
  | loading _ _ _ _ _ _ heq => exact absurd (congrArg Chain.storeCalls heq) hsame
  | clearing job rest hj _ hkind _ => exact absurd hkind (hu.jobs job (hj ▸ List.mem_cons_self)).1
  | writing job rest ref hj hp ho _ heq =>
      have hnew : s'.storeCalls = s.storeCalls ++ [⟨job.id, some s.snapshot.record⟩] :=
        congrArg Chain.storeCalls heq
      have hcall := List.append_cancel_left (hcalls.symm.trans hnew)
      simp only [List.cons.injEq, StoreCall.mk.injEq, Option.some.injEq] at hcall
      exact ⟨hu.job_ready hj hp ho, hcall.1.2⟩
  | saved _ _ _ _ _ heq => exact absurd (congrArg Chain.storeCalls heq) hsame
  | wiped _ _ _ _ heq => exact absurd (congrArg Chain.storeCalls heq) hsame
  | ended _ _ _ _ _ _ heq => exact absurd (congrArg Chain.storeCalls heq) hsame
  | crashed budget heq =>
      subst heq
      exact absurd hcalls.symm (by simp [fresh])

/-- The spend entry of what is taken is the totals. -/
theorem spendText_snapshot (s : Orchestrator ν) :
    parsePersistedSpend (spendText (some s.snapshot.record))
      = some ⟨s.totals.read, s.stop.map WorkflowStop.detail⟩ := by
  have htext : spendText (some s.snapshot.record)
      = some (persistedText s.totals (s.stop.map WorkflowStop.detail)) := by
    show ((s.steps.set spendEntry _).get spendEntry).bind StepCheckpoint.result = _
    rw [OrderedMap.get_set_self]
    rfl
  rw [htext, parsePersistedSpend_text ⟨fun _ _ => rfl, fun _ _ => rfl⟩]

end Kaiban.Orchestrator
