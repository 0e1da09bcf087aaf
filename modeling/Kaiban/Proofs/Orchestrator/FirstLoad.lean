/-
Before the first load has succeeded.

Until then no call has been given a map, so no work has begun, nothing is written and
nothing is restored.  A reset leaves an instance that need not load any more, so all of this
is about the time before the first one.
-/
import Kaiban.Proofs.Orchestrator.Control
import Kaiban.Proofs.Orchestrator.Held

open JsString

namespace Kaiban.Orchestrator

variable {ν : Type} {opts : OrchestratorOptions ν} {s s' : Orchestrator ν}

/-- Nothing has been done with a checkpoint. -/
structure Untouched (s : Orchestrator ν) : Prop where
  generation : s.generation = 0
  begun : s.begun = []
  unheld : ∀ c call, s.calls c = some call → call.phase.heldMap = none
  unrestored : s.restoredRecord = none

/-- The calls have been given what the instance had, and nothing before it was loaded. -/
structure FirstLoad (s : Orchestrator ν) : Prop where
  loading : Loading s
  held : Held s
  untouched : ¬ s.Ready → Untouched s

theorem untouched_fresh (budget : WorkflowBudget) (store : Option Checkpoint)
    (ledger : List Charge) : Untouched (fresh budget store ledger : Orchestrator ν) where
  generation := rfl
  begun := rfl
  unheld _ _ h := absurd h (by simp [fresh])
  unrestored := rfl

theorem firstLoad_fresh (budget : WorkflowBudget) (store : Option Checkpoint)
    (ledger : List Charge) : FirstLoad (fresh budget store ledger : Orchestrator ν) where
  loading := loading_fresh budget store ledger
  held := held_fresh budget store ledger
  untouched _ := untouched_fresh budget store ledger

/-- A step that has begun, or is written, was given its map by a load. -/
theorem Untouched.unwritten (h : Untouched s) (hheld : Held s) : s.writes = [] := by
  apply List.eq_nil_iff_forall_not_mem.mpr
  intro w hw
  obtain ⟨-, hbegun, -⟩ := hheld.written w hw
  rw [h.begun] at hbegun
  exact absurd hbegun List.not_mem_nil

variable [Arithmetic]

/-- The current load restores its record, and the instance has loaded. -/
theorem ready_restored (hok : LoadsOk s) {l : ℕ} {record : Option Checkpoint}
    {ledger : List Charge} {saved : PersistedSpend} (hp : (s.loads l).phase = .read record ledger)
    (hgen : (s.loads l).generation = s.generation)
    (hparse : parsePersistedSpend (spendText record) = some saved)
    (hstep : s.step opts (.loadReturns l) = some s') :
    ¬ s.Ready ∧ s'.Ready ∧ s' = ((s.withSteps record).restore (record.getD .empty) ledger
      saved).setLoad l (.settled true) := by
  have hcurrent := hok.current l (hok.asked (by simp [hp])) hgen (by simp [hp])
  have hs : s' = s.loadReturned l record ledger := by
    simp only [step, hp] at hstep
    exact (Option.some.inj hstep).symm
  rcases s.loadReturned_cases l record ledger with ⟨hno, -⟩ | ⟨-, hno, -⟩ |
    ⟨saved', -, hparse', h⟩
  · exact absurd hgen hno
  · exact absurd (hparse.symm.trans hno) (by simp)
  · obtain rfl := Option.some.inj (hparse.symm.trans hparse')
    have hafter := hs.trans h
    refine ⟨fun hready => ?_, ⟨.load l, ?_, ?_⟩, hafter⟩
    · exact absurd ((hready.settled hcurrent).symm.trans hp) (by simp)
    · obtain ⟨stop, reports, hr⟩ :=
        (s.withSteps record).restore_frame (record.getD .empty) ledger saved
      rw [hafter, hr]
      exact hcurrent
    · rw [hafter]
      exact outcome_settled _ l true

/-- What a call is given before the first load has succeeded: nothing. -/
theorem Untouched.unheld_step {e : OrchestratorEvent ν} (h : Untouched s) (hloading : Loading s)
    (hready : ¬ s.Ready) (hstep : s.step opts e = some s') (c : ℕ) (call : StepCall ν)
    (hc : s'.calls c = some call) : call.phase.heldMap = none := by
  cases call_step hstep c with
  | same h' => exact h.unheld c call (h' ▸ hc)
  | called kind name phase _ _ _ hphase h' =>
      obtain rfl := Option.some.inj (hc.symm.trans h')
      rcases hphase with rfl | ⟨rfl, -⟩ <;> rfl
  | moved kind name phase phase' hold hmoves h' =>
      obtain rfl := Option.some.inj (hc.symm.trans h')
      have hnone : phase.heldMap = none := h.unheld c _ hold
      cases hmoves with
      | loaded generation ref ho hkind =>
          obtain ⟨hle, hcurrent⟩ := hloading.waiting c _ _ generation ref hold
          have hgen : generation = s.generation := by
            have h0 := h.generation
            omega
          rcases hcurrent hgen with hthis | hfailed
          · exact absurd ⟨ref, hthis, ho⟩ hready
          · exact absurd (ho.symm.trans hfailed) (by simp)
      | checked => exact hnone
      | waits => exact hnone
      | produced => exact hnone
      | _ => rfl
  | began kind name cp he hold hget hname hbegun h' =>
      exact absurd (h.unheld c _ hold) (by simp [CallPhase.heldMap])
  | stored kind name phase cp entry hold hwrites hwritten h' =>
      obtain rfl := Option.some.inj (hc.symm.trans h')
      rfl
  | signalled kind name cp hold h' =>
      obtain rfl := Option.some.inj (hc.symm.trans h')
      rfl
  | crashed budget heq =>
      subst heq
      exact absurd hc (by simp [fresh])

/-- **Every step leaves an instance that has not loaded untouched.** -/
theorem firstLoad_step {e : OrchestratorEvent ν} (h : FirstLoad s)
    (hstep : s.step opts e = some s') : FirstLoad s' := by
  refine ⟨loading_step h.loading hstep, held_step h.held hstep, fun hready => ?_⟩
  cases loadStep h.loading.ok hstep with
  | kept hgen _ _ _ hkept =>
      have hnot : ¬ s.Ready := fun hr => hready (hkept hr).1
      have hold := h.untouched hnot
      refine ⟨hgen.trans hold.generation, ?_,
        hold.unheld_step h.loading hnot hstep, ?_⟩
      · apply List.eq_nil_iff_forall_not_mem.mpr
        intro c hc
        rcases begun_step hstep hc with hmem | ⟨kind, name, cp, -, -, hstarted⟩
        · exact absurd (hold.begun ▸ hmem) List.not_mem_nil
        · exact absurd (hold.unheld c _ hstarted) (by simp [CallPhase.heldMap])
      · have hsame : ∀ t : Orchestrator ν, s'.control = t.control →
            t.restoredRecord = s.restoredRecord → s'.restoredRecord = none := by
          intro t ht hrecord
          have heq : s'.restoredRecord = t.restoredRecord := congrArg Control.restoredRecord ht
          exact heq.trans (hrecord.trans hold.unrestored)
        cases control_step hstep with
        | quiet _ heq => exact hsame s heq rfl
        | accounted _ step amount heq =>
            rcases heq with heq | ⟨-, heq⟩
            · obtain ⟨stop, reports, hcheck⟩ := (s.charged step amount).checkStop_frame
              rw [hcheck] at heq
              exact hsame _ heq rfl
            · exact hsame _ heq rfl
        | unaccounted _ _ _ _ _ _ _ heq => exact hsame _ heq rfl
        | restored l record ledger saved hp hlgen hparse _ =>
            exact absurd (ready_restored h.loading.ok hp hlgen hparse hstep).2.1 hready
        | began _ _ _ _ _ _ _ heq => exact hsame _ heq rfl
        | signalled heq => exact hsame _ heq rfl
        | wiped heq => exact congrArg Control.restoredRecord heq
        | crashed budget heq =>
            rw [heq]
            rfl
  | wiped _ _ hr _ => exact absurd hr hready
  | crashed budget heq =>
      rw [heq]
      exact untouched_fresh budget s.store s.storeLedger

end Kaiban.Orchestrator
