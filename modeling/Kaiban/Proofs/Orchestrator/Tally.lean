/-
The totals of a workflow that is not cleared.

They are what was restored and what was charged since, each once.  A value of a producer is
written down before it is accounted, so one that has no JSON text is paid for and in no total.
A sum of charges depends on no order, so numbers are exact here.
-/
import Kaiban.Proofs.Orchestrator.Unwiped

open JsString

namespace Kaiban.Orchestrator

attribute [local instance] Arithmetic.exact

variable {ν : Type} {opts : OrchestratorOptions ν} {s s' : Orchestrator ν}

/-! ### Charges -/

/-- What charges come to. -/
def spent (charges : List Charge) : SpendTotals := (charges.map Charge.amount).sum

@[simp] theorem spent_nil : spent [] = 0 := rfl

@[simp] theorem spent_single (step : Option JsString) (amount : SpendTotals) :
    spent [⟨step, amount⟩] = amount := by
  simp [spent]

@[simp] theorem spent_append (charges more : List Charge) :
    spent (charges ++ more) = spent charges + spent more := by
  simp [spent]

/-- A step charges what it brings, unless a new instance begins. -/
theorem Unwiped.charges_step {e : OrchestratorEvent ν} (h : Unwiped s) (hon : ¬ Crashes e)
    (hstep : s.step opts e = some s') : s'.charges = s.charges ++ obtained opts s e := by
  have hsame : ∀ (t : Orchestrator ν) (more : List Charge), s'.control = t.control →
      t.charges = s.charges ++ more → obtained opts s e = more →
      s'.charges = s.charges ++ obtained opts s e := by
    intro t more heq hcharges he
    rw [he]
    exact (congrArg Control.charges heq).trans hcharges
  cases control_step hstep with
  | quiet _ heq he => exact hsame s [] heq (by simp) he
  | accounted _ step amount heq he =>
      rcases heq with heq | ⟨rfl, heq⟩
      · obtain ⟨stop, reports, hs⟩ := (s.charged step amount).checkStop_frame
        rw [hs] at heq
        exact hsame _ _ heq rfl he
      · exact hsame _ _ heq rfl he
  | unaccounted c kind name cp value hc hv heq =>
      exact hsame _ _ heq rfl (by simp only [obtained, hc])
  | restored l record ledger saved _ _ _ heq =>
      obtain ⟨stop, reports, hr⟩ := s.restore_frame (record.getD .empty) ledger saved
      rw [hr] at heq
      exact hsame _ [] heq (by simp) rfl
  | began _ _ _ _ _ _ _ heq => exact hsame _ [] heq (by simp) rfl
  | signalled heq => exact hsame _ [] heq (by simp) rfl
  | wiped heq => exact absurd (resets_of_wiped hstep heq) (h.not_resets _)
  | crashed _ _ => exact absurd trivial hon

/-! ### The tally -/

/-- A value that is obtained has a JSON text, or costs nothing. -/
def Accountable (opts : OrchestratorOptions ν) (s : Orchestrator ν) : OrchestratorEvent ν → Prop
  | .continues c =>
      match s.calls c with
      | some ⟨_, _, .produced _ value⟩ =>
          (opts.stringify value).isSome = true ∨ costOf opts (.inr value) = 0
      | _ => True
  | _ => True

/-- What the call of the event goes on with. -/
def valueOf (s : Orchestrator ν) : OrchestratorEvent ν → Option ν
  | .continues c =>
      match s.calls c with
      | some ⟨_, _, .produced _ value⟩ => some value
      | _ => none
  | _ => none

theorem accountable_iff {e : OrchestratorEvent ν} : Accountable opts s e ↔ ∀ value ∈ s.valueOf e,
    (opts.stringify value).isSome = true ∨ costOf opts (.inr value) = 0 := by
  unfold Accountable valueOf
  split
  · split <;> simp
  · simp

instance (s : Orchestrator ν) (e : OrchestratorEvent ν) : Decidable (Accountable opts s e) :=
  decidable_of_iff _ accountable_iff.symm

/-- The totals are what was restored and what was charged since. -/
structure Tallied (s : Orchestrator ν) : Prop where
  exact : StopExact s
  restored : SpendRestored s
  totals : s.totals = (s.restored + spent s.charges).running

theorem tallied_fresh (budget : WorkflowBudget) (store : Option Checkpoint)
    (ledger : List Charge) : Tallied (fresh budget store ledger : Orchestrator ν) where
  exact := stopExact_fresh budget store ledger
  restored := spendRestored_fresh budget store ledger
  totals := congrArg SpendTotals.running (add_zero 0).symm

/-- **Every accountable step keeps the tally.** -/
theorem tallied_step {e : OrchestratorEvent ν} (h : Tallied s) (hu : Unwiped s)
    (haccountable : Accountable opts s e) (hstep : s.step opts e = some s') : Tallied s' := by
  refine ⟨stopExact_step h.exact hstep, spendRestored_step h.restored h.exact hu.first hstep, ?_⟩
  have hsame : ∀ t : Orchestrator ν, s'.control = t.control →
      t.totals = (t.restored + spent t.charges).running →
        s'.totals = (s'.restored + spent s'.charges).running := by
    intro t heq htotals
    simp only [control, Control.mk.injEq] at heq
    obtain ⟨-, h1, -, -, -, -, -, -, h2, h3, -⟩ := heq
    rw [h1, h2, h3]
    exact htotals
  have hcharged : ∀ (step : Option JsString) (amount : SpendTotals),
      s.totals.add amount = (s.restored + spent (s.charges ++ [⟨step, amount⟩])).running := by
    intro step amount
    rw [spent_append, spent_single, ← add_assoc, h.totals]
    rfl
  have hfree : ∀ step : Option JsString,
      s.totals = (s.restored + spent (s.charges ++ [⟨step, 0⟩])).running := by
    intro step
    rw [spent_append, spent_single, add_zero]
    exact h.totals
  cases control_step hstep with
  | quiet _ heq => exact hsame s heq h.totals
  | accounted _ step amount heq =>
      rcases heq with heq | ⟨rfl, heq⟩
      · obtain ⟨stop, reports, hs⟩ := (s.charged step amount).checkStop_frame
        rw [hs] at heq
        exact hsame _ heq (hcharged step amount)
      · exact hsame _ heq (hfree step)
  | unaccounted c kind name cp value hc hv heq =>
      simp only [Accountable, hc, hv] at haccountable
      have hnothing : costOf opts (.inr value) = 0 := by simpa using haccountable
      rw [hnothing] at heq
      exact hsame _ heq (hfree (some name))
  | restored l record ledger saved hp hgen hparse heq =>
      obtain ⟨hnot, -, -⟩ := ready_restored hu.first.loading.ok hp hgen hparse hstep
      have hzero : s.restored = 0 :=
        h.restored.unrestored (hu.first.untouched hnot).unrestored
      obtain ⟨stop, reports, hr⟩ := s.restore_frame (record.getD .empty) ledger saved
      rw [hr] at heq
      refine hsame _ heq ?_
      show s.totals.add saved.totals = (saved.totals + spent s.charges).running
      rw [h.totals, hzero, zero_add, add_comm]
      rfl
  | began _ _ _ _ _ _ _ heq => exact hsame _ heq h.totals
  | signalled heq => exact hsame _ heq h.totals
  | wiped heq => exact absurd (resets_of_wiped hstep heq) (hu.not_resets _)
  | crashed budget heq =>
      rw [heq]
      exact (tallied_fresh budget _ _).totals

end Kaiban.Orchestrator
