/-
The life of an A2A task.

Only the wait on the router reacts to a cancel.  A cancel that comes while the submitted
task is being saved, or while an ending is, races with what `execute` does next, and so
does one before `execute`.  `Undisturbed` says of each step that no such race is lost, and
that the save of an ending does not fail.

In a run of such steps the task is `Progress`ing through four situations, one after the
other: nothing has ended it, `execute` is ending it, a cancel is ending it, it is over.
-/
import Kaiban.A2aExecutor
import Kaiban.Lib.Steps

open JsString

namespace Kaiban.Executor

variable {taskId : JsString} {s s' : Executor}

/-! ### What is claimed of a task -/

/-- Nothing is under way any more. -/
def Finished (s : Executor) : Prop :=
  s.phase = .ended ∧ ∀ c phase, s.cancels c = some phase → phase = .ended

/-- The life of a task as its clients see it. -/
structure Lifecycle (s : Executor) : Prop where
  oneFinal : (s.log.filter BusCall.isFinal).length ≤ 1
  final : s.Finished → (s.log.filter BusCall.isFinal).length = 1
  /-- Nothing follows a terminal status-update. -/
  silent : ∀ before x after, s.log = before ++ x :: after → x.isTerminal = true →
    ∀ y ∈ after, y = .finished
  /-- A terminal state in the store is not overwritten by another. -/
  kept : ∀ before t after, s.stored = before ++ t :: after → t.state.terminal = true →
    ∀ u ∈ after, u.state = t.state

/-! ### The condition -/

/-- No save of an ending is under way, and no result waits to be reported. -/
structure Unsettled (s : Executor) : Prop where
  phase : ∀ t stored, s.phase ≠ .ending t stored
  outcome : ∀ result, s.phase ≠ .waiting (some (.ok result))
  cancels : ∀ c t stored, s.cancels c ≠ some (.saving t stored)

/-- What the steps of a run must meet: a cancel comes before no `execute`, after no result
and beside no other ending; the submitted task is not stored after a canceled one, nor
reported after a cancel has ended; and the save of an ending does not fail, except that of
a completed task before it takes effect. -/
def Undisturbed (s : Executor) : ExecutorEvent → Prop
  | .execute _ validation => validation ≠ none ∧ ∀ c, s.cancels c = none
  | .cancel _ => s.Unsettled
  | .stores .execute => ∀ params, s.phase = .submitting params false →
      ∀ c phase, s.cancels c = some phase → ∃ t, phase = .saving t false
  | .saved .execute => ∀ params, s.phase = .submitting params true →
      ∀ c, s.cancels c ≠ some .ended
  | .saveFails .execute => ∀ t stored, s.phase = .ending t stored →
      t.state = .completed ∧ stored = false
  | .saveFails (.cancel _) => False
  | _ => True

/-! ### Where a task is -/

/-- No status-update of the log is final or terminal. -/
def Calm (log : List BusCall) : Prop := ∀ x ∈ log, x.isFinal = false ∧ x.isTerminal = false

/-- The store has held no ending. -/
def Open (stored : List A2aTask) : Prop := ∀ t ∈ stored, t.state.terminal = false

/-- The store holds this ending, and has held no other. -/
def Held (stored : List A2aTask) (t : A2aTask) : Prop :=
  t.state.terminal = true ∧ ∃ before, Open before ∧ stored = before ++ [t]

/-- What an ending leaves in the store, before and after it is stored. -/
def Saving (stored : List A2aTask) (t : A2aTask) : Bool → Prop
  | false => Open stored
  | true => Held stored t

/-- `execute` has not begun, or can only end without a word. -/
inductive Withdrawn (aborted : Bool) : ExecutePhase → Prop
  | idle : Withdrawn aborted .idle
  | submitting (params : ValidatedTaskInput) (stored : Bool) (h : aborted = true) :
      Withdrawn aborted (.submitting params stored)
  | publishing (h : aborted = true) : Withdrawn aborted .publishing
  | waiting (u : Unit) (h : aborted = true) : Withdrawn aborted (.waiting (some (.error u)))
  | ended : Withdrawn aborted .ended

/-- `execute` has not come to an ending. -/
inductive Underway : ExecutePhase → Prop
  | idle : Underway .idle
  | submitting (params : ValidatedTaskInput) (stored : Bool) : Underway (.submitting params stored)
  | publishing : Underway .publishing
  | waiting (outcome : Option (Except Unit JsString)) : Underway (.waiting outcome)

/-- Where a task is: nothing has ended it, `execute` is ending it, a cancel is ending it, or
it is over. -/
inductive Progress (s : Executor) : Prop
  | opened (hphase : Underway s.phase) (haborted : s.aborted = false)
      (hcancels : ∀ c, s.cancels c = none) (hlog : Calm s.log) (hstored : Open s.stored)
  | ending (t : A2aTask) (stored : Bool) (hphase : s.phase = .ending t stored)
      (ht : t.state.terminal = true) (haborted : s.aborted = false)
      (hcancels : ∀ c, s.cancels c = none) (hlog : Calm s.log)
      (hstored : Saving s.stored t stored)
  | canceling (c : ℕ) (t : A2aTask) (stored : Bool) (hc : s.cancels c = some (.saving t stored))
      (ht : t.state.terminal = true) (hothers : ∀ x, x ≠ c → s.cancels x = none)
      (hphase : Withdrawn s.aborted s.phase) (hlog : Calm s.log)
      (hstored : Saving s.stored t stored)
  | finished (t u : A2aTask) (before : List BusCall)
    (hlog : s.log = before ++ [.statusUpdate t true, .finished])
      (hbefore : Calm before) (hstored : Held s.stored u)
      (hphase : Withdrawn s.aborted s.phase)
      (hcancels : ∀ c phase, s.cancels c = some phase → phase = .ended)
      (hby : s.phase = .ended ∨ ∃ c, s.cancels c = some .ended)

theorem Withdrawn.aborted {aborted : Bool} {phase : ExecutePhase} (h : Withdrawn aborted phase)
    (hidle : phase ≠ .idle) (hended : phase ≠ .ended) : aborted = true := by
  cases h with
  | idle => exact absurd rfl hidle
  | submitting params stored h => exact h
  | publishing h => exact h
  | waiting u h => exact h
  | ended => exact absurd rfl hended

theorem Calm.append {log cs : List BusCall} (h : Calm log) (hcs : Calm cs) : Calm (log ++ cs) := by
  intro x hx
  rcases List.mem_append.mp hx with hold | hnew
  · exact h x hold
  · exact hcs x hnew

theorem Open.append {stored : List A2aTask} (h : Open stored) {t : A2aTask}
    (ht : t.state.terminal = false) : Open (stored ++ [t]) := by
  intro x hx
  rcases List.mem_append.mp hx with hold | hnew
  · exact h x hold
  · rw [List.mem_singleton.mp hnew]
    exact ht

/-- `execute` begins an ending with nothing ended before. -/
theorem progress_emitTerminal (hcancels : ∀ c, s.cancels c = none) (haborted : s.aborted = false)
    (hlog : Calm s.log) (hstored : Open s.stored) {state : TaskState}
      (hstate : state.terminal = true)
    (text : JsString) : Progress (s.emitTerminal taskId state text) :=
  .ending ⟨taskId, s.contextId, state, some text⟩ false rfl hstate haborted hcancels
    (hlog.append (by simp [Calm, BusCall.isFinal, BusCall.isTerminal])) hstored

/-- The `catch` of `execute`, when nothing has ended the task. -/
theorem progress_caught (hcancels : ∀ c, s.cancels c = none) (haborted : s.aborted = false)
    (hlog : Calm s.log) (hstored : Open s.stored) : Progress (s.caught taskId) := by
  unfold caught
  rw [if_neg (by simp [haborted])]
  exact progress_emitTerminal hcancels haborted hlog hstored rfl _

/-- The `catch` of `execute` after an abort says nothing. -/
theorem caught_aborted (h : s.aborted = true) : s.caught taskId = { s with phase := .ended } :=
  if_pos h

/-! ### One step -/

theorem progress_execute (h : Progress s) {contextId : JsString}
    {validation : Option (Except JsString ValidatedTaskInput)}
    (he : s.Undisturbed (.execute contextId validation))
    (hstep : s.step taskId (.execute contextId validation) = some s') : Progress s' := by
  simp only [step] at hstep
  split at hstep
  · rename_i hidle
    obtain rfl := Option.some.inj hstep
    cases h with
    | opened hphase haborted hcancels hlog hstored =>
        cases validation with
        | none => exact absurd rfl he.1
        | some v =>
            cases v with
            | error message =>
                exact progress_emitTerminal (s := { s with contextId := contextId }) hcancels
                  haborted hlog hstored rfl message
            | ok params =>
                exact .opened (.submitting params false) haborted hcancels
                  (hlog.append (by simp [Calm, BusCall.isFinal, BusCall.isTerminal])) hstored
    | ending t stored hphase => exact absurd (hidle.symm.trans hphase) (by simp)
    | canceling c t stored hc => exact absurd (hc.symm.trans (he.2 c)) (by simp)
    | finished t u before hlog hbefore hstored hphase hcancels hby =>
        rcases hby with hend | ⟨c, hc⟩
        · exact absurd (hidle.symm.trans hend) (by simp)
        · exact absurd (hc.symm.trans (he.2 c)) (by simp)
  · exact absurd hstep (by simp)

/-- A cancel in a phase that is under way leaves `execute` nothing to say. -/
theorem cancelTask_phase (h : Underway s.phase) (hs : s.Unsettled) (c : ℕ) :
    Withdrawn (s.cancelTask taskId c).aborted (s.cancelTask taskId c).phase := by
  show Withdrawn (if s.inFlight = true then s.abort else s).aborted
    (if s.inFlight = true then s.abort else s).phase
  cases hphase : s.phase with
  | idle =>
      rw [if_neg (by simp [inFlight, hphase]), hphase]
      exact .idle
  | submitting params stored =>
      rw [if_pos (by simp [inFlight, hphase])]
      simp only [abort, hphase]
      exact .submitting params stored rfl
  | publishing =>
      rw [if_pos (by simp [inFlight, hphase])]
      simp only [abort, hphase]
      exact .publishing rfl
  | waiting outcome =>
      rw [if_pos (by simp [inFlight, hphase])]
      simp only [abort, hphase]
      cases outcome with
      | none => exact .waiting () rfl
      | some r =>
          cases r with
          | error u => exact .waiting u rfl
          | ok result => exact absurd hphase (hs.outcome result)
  | ending t stored => exact absurd hphase (hs.phase t stored)
  | ended =>
      rw [hphase] at h
      cases h

/-- A cancel adds one message to the log, and its save. -/
theorem cancelTask_frame (taskId : JsString) (s : Executor) (c : ℕ) :
    ∃ t, t.state = .canceled ∧ (s.cancelTask taskId c).log = s.log ++ [.task t] ∧
      (s.cancelTask taskId c).stored = s.stored ∧
      ∀ x, (s.cancelTask taskId c).cancels x
        = if x = c then some (.saving t false) else s.cancels x := by
  unfold cancelTask
  split <;> exact ⟨_, rfl, rfl, rfl, fun x => rfl⟩

theorem progress_cancel (h : Progress s) {c : ℕ} (he : s.Undisturbed (.cancel c))
    (hstep : s.step taskId (.cancel c) = some s') : Progress s' := by
  simp only [step] at hstep
  split at hstep
  · rw [Option.ite_none_right_eq_some] at hstep
    obtain ⟨hopen, hstep⟩ := hstep
    obtain rfl := Option.some.inj hstep
    cases h with
    | opened hphase haborted hcancels hlog hstored =>
        obtain ⟨t, ht, hlog', hstored', hcancels'⟩ := cancelTask_frame taskId s c
        refine .canceling c t false ((hcancels' c).trans (if_pos rfl)) (by rw [ht]; rfl)
          (fun x hx => ?_) (cancelTask_phase hphase he c) ?_ ?_
        · rw [hcancels', if_neg hx]
          exact hcancels x
        · rw [hlog']
          exact hlog.append (by simp [Calm, BusCall.isFinal, BusCall.isTerminal])
        · rw [hstored']
          exact hstored
    | ending t stored hphase => exact absurd hphase (he.phase t stored)
    | canceling x t stored hx => exact absurd hx (he.cancels x t stored)
    | finished t u before hlog hbefore hstored =>
        obtain ⟨hu, earlier, -, hlast⟩ := hstored
        simp [cancelable, hlast, hu] at hopen
  · exact absurd hstep (by simp)

theorem progress_stores (h : Progress s) {p : Saver} (he : s.Undisturbed (.stores p))
    (hstep : s.step taskId (.stores p) = some s') : Progress s' := by
  cases p with
  | execute =>
      simp only [step] at hstep
      split at hstep
      · rename_i params hphase
        obtain rfl := Option.some.inj hstep
        have hcalm := he params hphase
        cases h with
        | opened _ haborted hcancels hlog hstored =>
            exact .opened (.submitting params true) haborted hcancels hlog (hstored.append rfl)
        | ending t stored hending => exact absurd (hphase.symm.trans hending) (by simp)
        | canceling c t stored hc ht hothers hw hlog hstored =>
            obtain ⟨t', ht'⟩ := hcalm c _ hc
            obtain ⟨-, rfl⟩ := CancelPhase.saving.inj ht'
            rw [hphase] at hw
            cases hw with
            | submitting _ _ haborted =>
                exact .canceling c t false hc ht hothers (.submitting params true haborted) hlog
                  (Open.append hstored rfl)
        | finished t u before hlog hbefore hstored hw hcancels hby =>
            rcases hby with hend | ⟨c, hc⟩
            · exact absurd (hphase.symm.trans hend) (by simp)
            · obtain ⟨t', ht'⟩ := hcalm c _ hc
              exact absurd ht' (by simp)
      · rename_i t hphase
        obtain rfl := Option.some.inj hstep
        cases h with
        | opened hunder =>
            rw [hphase] at hunder
            cases hunder
        | ending u stored hending ht haborted hcancels hlog hstored =>
            obtain ⟨rfl, rfl⟩ := ExecutePhase.ending.inj (hphase.symm.trans hending)
            exact .ending t true rfl ht haborted hcancels hlog ⟨ht, s.stored, hstored, rfl⟩
        | canceling c u stored hc ht hothers hw =>
            rw [hphase] at hw
            cases hw
        | finished u v before hlog hbefore hstored hw =>
            rw [hphase] at hw
            cases hw
      · exact absurd hstep (by simp)
  | cancel c =>
      simp only [step] at hstep
      split at hstep
      · rename_i t hc
        obtain rfl := Option.some.inj hstep
        cases h with
        | opened _ _ hcancels => exact absurd (hc.symm.trans (hcancels c)) (by simp)
        | ending _ _ _ _ _ hcancels => exact absurd (hc.symm.trans (hcancels c)) (by simp)
        | canceling x u stored hx ht hothers hw hlog hstored =>
            obtain rfl : c = x := by
              by_contra hne
              exact absurd (hc.symm.trans (hothers c hne)) (by simp)
            obtain ⟨rfl, rfl⟩ := CancelPhase.saving.inj (Option.some.inj (hc.symm.trans hx))
            refine .canceling c t true (if_pos rfl) ht
              (fun y hy => (if_neg hy).trans (hothers y hy))
              hw hlog ⟨ht, s.stored, hstored, rfl⟩
        | finished u v before hlog hbefore hstored hw hcancels =>
            exact absurd (hcancels c _ hc) (by simp)
      · exact absurd hstep (by simp)

theorem progress_saved (h : Progress s) {p : Saver} (he : s.Undisturbed (.saved p))
    (hstep : s.step taskId (.saved p) = some s') : Progress s' := by
  cases p with
  | execute =>
      simp only [step] at hstep
      split at hstep
      · rename_i params hphase
        obtain rfl := Option.some.inj hstep
        have hcalm : Calm (s.log ++ _) → Calm (s.submitted taskId params).log := fun h => h
        cases h with
        | opened _ haborted hcancels hlog hstored =>
            exact .opened .publishing haborted hcancels (hcalm (hlog.append
              (by simp [Calm, BusCall.isFinal, BusCall.isTerminal, TaskState.terminal]))) hstored
        | ending t stored hending => exact absurd (hphase.symm.trans hending) (by simp)
        | canceling c t stored hc ht hothers hw hlog hstored =>
            rw [hphase] at hw
            cases hw with
            | submitting _ _ haborted =>
                exact .canceling c t stored hc ht hothers (.publishing haborted) (hcalm (hlog.append
                  (by simp [Calm, BusCall.isFinal, BusCall.isTerminal, TaskState.terminal])))
                    hstored
        | finished t u before hlog hbefore hstored hw hcancels hby =>
            rcases hby with hend | ⟨c, hc⟩
            · exact absurd (hphase.symm.trans hend) (by simp)
            · exact absurd hc (he params hphase c)
      · rename_i t hphase
        obtain rfl := Option.some.inj hstep
        cases h with
        | opened hunder =>
            rw [hphase] at hunder
            cases hunder
        | ending u stored hending ht haborted hcancels hlog hstored =>
            obtain ⟨rfl, rfl⟩ := ExecutePhase.ending.inj (hphase.symm.trans hending)
            exact .finished t t s.log rfl hlog hstored .ended
              (fun c phase hc => absurd (hc.symm.trans (hcancels c)) (by simp)) (.inl rfl)
        | canceling c u stored hc ht hothers hw =>
            rw [hphase] at hw
            cases hw
        | finished u v before hlog hbefore hstored hw =>
            rw [hphase] at hw
            cases hw
      · exact absurd hstep (by simp)
  | cancel c =>
      simp only [step] at hstep
      split at hstep
      · rename_i t hc
        obtain rfl := Option.some.inj hstep
        cases h with
        | opened _ _ hcancels => exact absurd (hc.symm.trans (hcancels c)) (by simp)
        | ending _ _ _ _ _ hcancels => exact absurd (hc.symm.trans (hcancels c)) (by simp)
        | canceling x u stored hx ht hothers hw hlog hstored =>
            obtain rfl : c = x := by
              by_contra hne
              exact absurd (hc.symm.trans (hothers c hne)) (by simp)
            obtain ⟨rfl, rfl⟩ := CancelPhase.saving.inj (Option.some.inj (hc.symm.trans hx))
            refine .finished t t s.log rfl hlog hstored hw (fun y phase hy => ?_)
              (.inr ⟨c, if_pos rfl⟩)
            have hy' : (if y = c then some CancelPhase.ended else s.cancels y) = some phase := hy
            by_cases hyc : y = c
            · rw [if_pos hyc] at hy'
              exact (Option.some.inj hy').symm
            · rw [if_neg hyc, hothers y hyc] at hy'
              exact absurd hy' (by simp)
        | finished u v before hlog hbefore hstored hw hcancels =>
            exact absurd (hcancels c _ hc) (by simp)
      · exact absurd hstep (by simp)

/-- An aborted `execute` that has not ended goes on in silence. -/
theorem Progress.withdraw (h : Progress s) (haborted : s.aborted = true) (hne : s.phase ≠ .ended)
    {phase : ExecutePhase} (hphase : Withdrawn s.aborted phase) :
    Progress { s with phase := phase } := by
  cases h with
  | opened _ hnot => exact absurd (haborted.symm.trans hnot) (by simp)
  | ending _ _ _ _ hnot => exact absurd (haborted.symm.trans hnot) (by simp)
  | canceling c t stored hc ht hothers _ hlog hstored =>
      exact .canceling c t stored hc ht hothers hphase hlog hstored
  | finished t u before hlog hbefore hstored _ hcancels hby =>
      rcases hby with hend | hby
      · exact absurd hend hne
      · exact .finished t u before hlog hbefore hstored hphase hcancels (.inr hby)

/-- The `catch` of `execute`, when no ending is under way. -/
theorem Progress.caught (h : Progress s) (hne : s.phase ≠ .ended)
    (hending : ∀ t stored, s.phase ≠ .ending t stored) (hidle : s.phase ≠ .idle) :
    Progress (s.caught taskId) := by
  cases haborted : s.aborted with
  | true =>
      rw [caught_aborted haborted]
      exact h.withdraw haborted hne .ended
  | false =>
      cases h with
      | opened _ _ hcancels hlog hstored => exact progress_caught hcancels haborted hlog hstored
      | ending t stored hphase => exact absurd hphase (hending t stored)
      | canceling c t stored hc ht hothers hw =>
          exact absurd ((hw.aborted hidle hne).symm.trans haborted) (by simp)
      | finished t u before hlog hbefore hstored hw =>
          exact absurd ((hw.aborted hidle hne).symm.trans haborted) (by simp)

theorem progress_saveFails (h : Progress s) {p : Saver} (he : s.Undisturbed (.saveFails p))
    (hstep : s.step taskId (.saveFails p) = some s') : Progress s' := by
  cases p with
  | cancel c => exact absurd he (by simp [Undisturbed])
  | execute =>
      simp only [step] at hstep
      split at hstep
      · rename_i params stored hphase
        obtain rfl := Option.some.inj hstep
        exact h.caught (by simp [hphase]) (by simp [hphase]) (by simp [hphase])
      · rename_i t stored hphase
        obtain rfl := Option.some.inj hstep
        obtain ⟨hcompleted, rfl⟩ := he t stored hphase
        rw [if_pos hcompleted]
        cases h with
        | opened hunder =>
            rw [hphase] at hunder
            cases hunder
        | ending u stored hending ht haborted hcancels hlog hstored =>
            obtain ⟨rfl, rfl⟩ := ExecutePhase.ending.inj (hphase.symm.trans hending)
            exact progress_caught hcancels haborted hlog hstored
        | canceling c u stored hc ht hothers hw =>
            rw [hphase] at hw
            cases hw
        | finished u v before hlog hbefore hstored hw =>
            rw [hphase] at hw
            cases hw
      · exact absurd hstep (by simp)

/-- The wait begins.  It rejects at once after an abort. -/
theorem progress_mailboxTakes (h : Progress s)
    (hstep : s.step taskId .mailboxTakes = some s') : Progress s' := by
  simp only [step] at hstep
  split at hstep
  · rename_i hphase
    obtain rfl := Option.some.inj hstep
    by_cases haborted : s.aborted = true
    · rw [if_pos haborted]
      exact h.withdraw haborted (by simp [hphase]) (.waiting () haborted)
    · rw [if_neg haborted]
      cases h with
      | opened _ hnot hcancels hlog hstored =>
          exact .opened (.waiting none) hnot hcancels hlog hstored
      | ending t stored hending => exact absurd (hphase.symm.trans hending) (by simp)
      | canceling c t stored hc ht hothers hw =>
          exact absurd (hw.aborted (by simp [hphase]) (by simp [hphase])) haborted
      | finished t u before hlog hbefore hstored hw =>
          exact absurd (hw.aborted (by simp [hphase]) (by simp [hphase])) haborted
  · exact absurd hstep (by simp)

theorem progress_settles (h : Progress s) {outcome : Except Unit JsString}
    (hstep : s.step taskId (.settles outcome) = some s') : Progress s' := by
  simp only [step] at hstep
  split at hstep
  · rename_i hphase
    obtain rfl := Option.some.inj hstep
    cases h with
    | opened _ haborted hcancels hlog hstored =>
        exact .opened (.waiting (some outcome)) haborted hcancels hlog hstored
    | ending t stored hending => exact absurd (hphase.symm.trans hending) (by simp)
    | canceling c t stored hc ht hothers hw =>
        rw [hphase] at hw
        cases hw
    | finished t u before hlog hbefore hstored hw =>
        rw [hphase] at hw
        cases hw
  · exact absurd hstep (by simp)

theorem progress_resumes (h : Progress s) (hstep : s.step taskId .resumes = some s') :
    Progress s' := by
  simp only [step] at hstep
  split at hstep
  · rename_i result hphase
    obtain rfl := Option.some.inj hstep
    cases h with
    | opened _ haborted hcancels hlog hstored =>
        exact .ending ⟨taskId, s.contextId, .completed, some result⟩ false rfl rfl haborted hcancels
          (hlog.append (by simp [Calm, BusCall.isFinal, BusCall.isTerminal])) hstored
    | ending t stored hending => exact absurd (hphase.symm.trans hending) (by simp)
    | canceling c t stored hc ht hothers hw =>
        rw [hphase] at hw
        cases hw
    | finished t u before hlog hbefore hstored hw =>
        rw [hphase] at hw
        cases hw
  · rename_i u hphase
    obtain rfl := Option.some.inj hstep
    exact h.caught (by simp [hphase]) (by simp [hphase]) (by simp [hphase])
  · exact absurd hstep (by simp)

/-- **Every undisturbed step keeps the task in one of the four situations.** -/
theorem progress_step {e : ExecutorEvent} (h : Progress s) (he : s.Undisturbed e)
    (hstep : s.step taskId e = some s') : Progress s' := by
  cases e with
  | execute contextId validation => exact progress_execute h he hstep
  | cancel c => exact progress_cancel h he hstep
  | stores p => exact progress_stores h he hstep
  | saved p => exact progress_saved h he hstep
  | saveFails p => exact progress_saveFails h he hstep
  | mailboxTakes => exact progress_mailboxTakes h hstep
  | mailboxFails =>
      simp only [step] at hstep
      split at hstep
      · rename_i hphase
        obtain rfl := Option.some.inj hstep
        exact h.caught (by simp [hphase]) (by simp [hphase]) (by simp [hphase])
      · exact absurd hstep (by simp)
  | settles outcome => exact progress_settles h hstep
  | resumes => exact progress_resumes h hstep

/-! ### What the situations say -/

/-- Where a list is cut at an element with a property, no part without it is cut. -/
theorem cut_after {α : Type} {p : α → Prop} {first rest before after : List α} {x : α}
    (hfirst : ∀ y ∈ first, ¬ p y) (hx : p x) (h : first ++ rest = before ++ x :: after) :
    ∃ mid, before = first ++ mid ∧ rest = mid ++ x :: after := by
  rcases List.append_eq_append_iff.mp h with ⟨mid, hbefore, hrest⟩ | ⟨mid, hsplit, hrest⟩
  · exact ⟨mid, hbefore, hrest⟩
  · cases mid with
    | nil => exact ⟨[], by simpa using hsplit.symm, by simpa using hrest.symm⟩
    | cons y mid =>
        obtain ⟨rfl, -⟩ := List.cons.inj hrest
        exact absurd hx (hfirst x (by rw [hsplit]; simp))

theorem Calm.finals {log : List BusCall} (h : Calm log) : log.filter BusCall.isFinal = [] := by
  rw [List.filter_eq_nil_iff]
  intro x hx
  simp [(h x hx).1]

theorem Calm.silent {log before after : List BusCall} {x : BusCall} (h : Calm log)
    (heq : log = before ++ x :: after) : x.isTerminal = false :=
  (h x (by rw [heq]; simp)).2

/-- Before an ending is stored no terminal state is overwritten, as there is none. -/
theorem Saving.kept {stored before after : List A2aTask} {t u : A2aTask} {done : Bool}
    (h : Saving stored t done) (heq : stored = before ++ u :: after)
    (hu : u.state.terminal = true) : after = [] := by
  cases done with
  | false => exact absurd (h u (by rw [heq]; simp)) (by simp [hu])
  | true =>
      obtain ⟨-, first, hfirst, hlast⟩ := h
      obtain ⟨mid, -, hmid⟩ := cut_after (p := fun t : A2aTask => t.state.terminal = true)
        (fun y hy => by simp [hfirst y hy]) hu (hlast.symm.trans heq)
      cases mid with
      | nil => exact (List.cons.inj hmid).2.symm
      | cons y mid => exact absurd (List.cons.inj hmid).2 (by simp)

/-- **What each situation says of the task.** -/
theorem Progress.lifecycle (h : Progress s) : Lifecycle s := by
  cases h with
  | opened hphase haborted hcancels hlog hstored =>
      refine ⟨by simp [hlog.finals], fun hf => ?_, fun before x after heq hx => ?_,
        fun before t after heq ht u hu => ?_⟩
      · rw [hf.1] at hphase
        cases hphase
      · exact absurd ((hlog.silent heq).symm.trans hx) (by simp)
      · exact absurd (hstored t (by rw [heq]; simp)) (by simp [ht])
  | ending t stored hphase ht haborted hcancels hlog hstored =>
      refine ⟨by simp [hlog.finals], fun hf => ?_, fun before x after heq hx => ?_,
        fun before u after heq hu v hv => ?_⟩
      · exact absurd (hphase.symm.trans hf.1) (by simp)
      · exact absurd ((hlog.silent heq).symm.trans hx) (by simp)
      · rw [hstored.kept heq hu] at hv
        exact absurd hv (by simp)
  | canceling c t stored hc ht hothers hphase hlog hstored =>
      refine ⟨by simp [hlog.finals], fun hf => ?_, fun before x after heq hx => ?_,
        fun before u after heq hu v hv => ?_⟩
      · exact absurd (hf.2 c _ hc) (by simp)
      · exact absurd ((hlog.silent heq).symm.trans hx) (by simp)
      · rw [hstored.kept heq hu] at hv
        exact absurd hv (by simp)
  | finished t u before hlog hbefore hstored hphase hcancels hby =>
      have hone : (s.log.filter BusCall.isFinal).length = 1 := by
        rw [hlog, List.filter_append, hbefore.finals]
        rfl
      refine ⟨by omega, fun _ => hone, fun first x after heq hx => ?_,
        fun first v after heq hv w hw => ?_⟩
      · obtain ⟨mid, -, hmid⟩ := cut_after (p := fun x : BusCall => x.isTerminal = true)
          (fun y hy => by simp [(hbefore y hy).2]) hx (hlog.symm.trans heq)
        cases mid with
        | nil =>
            obtain ⟨-, rfl⟩ := List.cons.inj hmid
            simp
        | cons y mid =>
            cases mid with
            | nil =>
                obtain ⟨-, hmid⟩ := List.cons.inj hmid
                obtain ⟨-, rfl⟩ := List.cons.inj hmid
                simp
            | cons z mid => exact absurd (List.cons.inj (List.cons.inj hmid).2).2 (by simp)
      · have hsaving : Saving s.stored u true := hstored
        rw [hsaving.kept heq hv] at hw
        exact absurd hw (by simp)

/-- **The life of a task is as claimed in every run without a lost race.** -/
theorem lifecycle_undisturbed {es : List ExecutorEvent}
    (hes : Steps.Along (step taskId) Undisturbed init es)
    (hrun : Steps.run (step taskId) init es = some s) : Lifecycle s := by
  have hinit : Progress init :=
    .opened .idle rfl (fun _ => rfl) (by simp [Calm, init]) (by simp [Open, init])
  have h : Progress s :=
    Steps.run_invariant (fun s e s' hp he hstep => progress_step hp he hstep) hinit hes hrun
  exact h.lifecycle

/-! ### Two cancels -/

def plainInput : ValidatedTaskInput := ⟨js "writer", some (js "go"), none, none, none⟩

/-- A cancel during the wait. -/
def cancelWaiting : List ExecutorEvent :=
  [.execute (js "ctx") (some (.ok plainInput)), .stores .execute, .saved .execute, .mailboxTakes,
    .cancel 0, .resumes, .stores (.cancel 0), .saved (.cancel 0)]

theorem cancelWaiting_undisturbed :
    Steps.Along (step (js "task-1")) Undisturbed init cancelWaiting := by
  refine ⟨⟨by simp, fun c => rfl⟩, fun s hs => ?_⟩
  obtain rfl := Option.some.inj hs
  refine ⟨fun params h c phase hc => absurd hc (by simp [init, execute, call]), fun s hs => ?_⟩
  obtain rfl := Option.some.inj hs
  refine ⟨fun params h c => by simp [init, execute, call], fun s hs => ?_⟩
  obtain rfl := Option.some.inj hs
  refine ⟨trivial, fun s hs => ?_⟩
  obtain rfl := Option.some.inj hs
  refine ⟨⟨fun t stored => ?_, fun result => ?_, fun c t stored => ?_⟩, fun s hs => ?_⟩
  · simp [submitted, execute, init, call]
  · simp [submitted, execute, init, call]
  · simp [submitted, execute, init, call]
  · obtain rfl := Option.some.inj hs
    exact ⟨trivial, fun _ _ => ⟨trivial, fun _ _ => ⟨trivial, fun _ _ => trivial⟩⟩⟩

/-- A cancel during the wait ends the task once. -/
theorem lifecycle_undisturbed_canceled :
    ∃ s, Steps.run (step (js "task-1")) init cancelWaiting = some s ∧ Finished s ∧
      Lifecycle s := by
  refine ⟨_, rfl, ⟨rfl, fun c phase hc => ?_⟩,
    lifecycle_undisturbed cancelWaiting_undisturbed rfl⟩
  have hc' : (if c = 0 then some CancelPhase.ended else if c = 0 then _ else if c = 0 then _
    else none) = some phase := hc
  split_ifs at hc'
  exact (Option.some.inj hc').symm

/-- A cancel while the submitted task is being saved. -/
def cancelSubmitting : List ExecutorEvent :=
  [.execute (js "ctx") (some (.ok plainInput)), .cancel 0, .stores (.cancel 0), .saved (.cancel 0),
    .stores .execute, .saved .execute]

/-- **A task that is canceled while it is saved is reported as working, given to the agent
and stored as submitted afterwards.** -/
theorem canceled_submission_goes_on :
    ∃ s, Steps.run (step (js "task-1")) init cancelSubmitting = some s ∧ ¬ Lifecycle s ∧
      s.stored.map A2aTask.state = [.canceled, .submitted] := by
  refine ⟨_, rfl, fun h => ?_, rfl⟩
  have hkept := h.kept [] _ _ rfl rfl _ List.mem_cons_self
  exact absurd hkept (by simp)

end Kaiban.Executor
