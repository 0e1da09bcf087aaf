/-
No ceiling goes away by accident.

A cap that was read is the number of its text, the default or, for the word `unlimited`
alone, none at all.  So a workflow whose budget comes from an environment that does not
take its cost ceiling away begins work only while its running cost is below a positive
ceiling, however the environment changes between restarts.
-/
import Kaiban.Proofs.Orchestrator.BudgetStop
import Kaiban.SpendCaps

open JsString

namespace Kaiban

variable {T : CaseTables}

/-! ### One variable -/

/-- The text is the word that takes a ceiling away. -/
def TakesCapAway (T : CaseTables) (raw : Option JsString) : Prop :=
  T.toLowerCase (capEnvText raw) = unlimitedSentinel

/-- The text is a positive number. -/
def NamesCap (raw : Option JsString) (d : Decimal) : Prop :=
  positiveNumber (JsNumber.ofText (capEnvText raw)) = some d

/-- The text is there, and is neither the word nor a positive number. -/
def BadCap (T : CaseTables) (raw : Option JsString) : Prop :=
  capEnvText raw ≠ [] ∧ ¬TakesCapAway T raw ∧ ∀ d, ¬NamesCap raw d

theorem positiveNumber_double {n : JsNumber} {d : Decimal} (h : positiveNumber n = some d) :
    isPositiveDouble d = true := by
  cases n with
  | finite x =>
      unfold positiveNumber at h
      dsimp only at h
      split at h
      · rename_i hdouble
        exact Option.some.inj h ▸ hdouble
      · exact absurd h (by simp)
  | _ => exact absurd h (by simp [positiveNumber])

theorem isPositiveDouble_pos {d : Decimal} (h : isPositiveDouble d = true) : 0 < d := by
  have hbig : (1 : ℚ) < (d : ℚ) * 2 ^ 1075 := of_decide_eq_true (Bool.and_eq_true_iff.mp h).1
  have hpos : (0 : ℚ) < (d : ℚ) := by
    by_contra hnot
    have hle : (d : ℚ) * 2 ^ 1075 ≤ 0 :=
      mul_nonpos_of_nonpos_of_nonneg (not_lt.mp hnot) (by positivity)
    exact absurd (lt_of_lt_of_le hbig hle) (by norm_num)
  exact hpos

/-- An empty text neither is the word nor names a number. -/
theorem empty_plain {raw : Option JsString} (h : capEnvText raw = []) :
    ¬TakesCapAway T raw ∧ ∀ d, ¬NamesCap raw d := by
  unfold TakesCapAway NamesCap
  rw [h]
  constructor
  · show ¬([] : JsString) = js "unlimited"
    decide
  · intro d hd
    have hnone : positiveNumber (JsNumber.ofText []) = none := by decide +kernel
    exact absurd (hnone.symm.trans hd) (by simp)

/-- **What a variable can be read as.** -/
theorem parseCapEnv_cases (T : CaseTables) (warned : List JsString) (name : JsString)
    (raw : Option JsString) (fallback : JsNumber) :
    (TakesCapAway T raw ∧ parseCapEnv T warned name raw fallback = (.posInfinity, warned)) ∨
    (∃ d, ¬TakesCapAway T raw ∧ NamesCap raw d ∧
      parseCapEnv T warned name raw fallback = (.finite d, warned)) ∨
    (capEnvText raw = [] ∧ parseCapEnv T warned name raw fallback = (fallback, warned)) ∨
    (BadCap T raw ∧ parseCapEnv T warned name raw fallback
      = (fallback, if name ∈ warned then warned else warned ++ [name])) := by
  unfold parseCapEnv
  by_cases hempty : capEnvText raw = []
  · exact .inr (.inr (.inl ⟨hempty, if_pos hempty⟩))
  rw [if_neg hempty]
  by_cases hword : T.toLowerCase (capEnvText raw) = unlimitedSentinel
  · exact .inl ⟨hword, if_pos hword⟩
  rw [if_neg hword]
  cases hnumber : positiveNumber (JsNumber.ofText (capEnvText raw)) with
  | some d => exact .inr (.inl ⟨d, hword, hnumber, rfl⟩)
  | none =>
      refine .inr (.inr (.inr ⟨⟨hempty, hword, fun d hd => ?_⟩, rfl⟩))
      exact absurd (hnumber.symm.trans hd) (by simp)

/-- A cap that was read of a text. -/
structure CapSound (T : CaseTables) (raw : Option JsString) (fallback cap : JsNumber) : Prop where
  /-- It is none only for the word, or where the default is none. -/
  unlimited : cap = .posInfinity ↔
    TakesCapAway T raw ∨ fallback = .posInfinity ∧ ∀ d, ¬NamesCap raw d
  /-- The number of the text comes before the default. -/
  named : ∀ d, ¬TakesCapAway T raw → NamesCap raw d → cap = .finite d
  otherwise : ¬TakesCapAway T raw → (∀ d, ¬NamesCap raw d) → cap = fallback

/-- The default, where the text says nothing. -/
theorem CapSound.default {raw : Option JsString} (fallback : JsNumber)
    (hword : ¬TakesCapAway T raw) (hnone : ∀ d, ¬NamesCap raw d) :
    CapSound T raw fallback fallback :=
  ⟨⟨fun hinf => .inr ⟨hinf, hnone⟩, fun hor => hor.elim (absurd · hword) And.left⟩,
    fun d _ hd => absurd hd (hnone d), fun _ _ => rfl⟩

theorem capSound (T : CaseTables) (warned : List JsString) (name : JsString)
    (raw : Option JsString) (fallback : JsNumber) :
    CapSound T raw fallback (parseCapEnv T warned name raw fallback).1 := by
  rcases parseCapEnv_cases T warned name raw fallback with ⟨hword, h⟩ | ⟨d, hword, hnames, h⟩ |
    ⟨hempty, h⟩ | ⟨⟨-, hword, hnone⟩, h⟩ <;> rw [h]
  · exact ⟨⟨fun _ => .inl hword, fun _ => rfl⟩, fun d hnot => absurd hword hnot,
      fun hnot => absurd hword hnot⟩
  · refine ⟨⟨fun hinf => absurd hinf (by simp), fun hor => ?_⟩, fun x _ hx => ?_,
      fun _ hnone => absurd hnames (hnone d)⟩
    · rcases hor with hw | ⟨-, hnone⟩
      · exact absurd hw hword
      · exact absurd hnames (hnone d)
    · rw [Option.some.inj (hnames.symm.trans hx)]
  · obtain ⟨hword, hnone⟩ := empty_plain (T := T) hempty
    exact .default fallback hword hnone
  · exact .default fallback hword hnone

/-! ### The warnings -/

/-- A variable that is read, with its text. -/
structure CapRead where
  var : CapVariable
  raw : Option JsString

/-- The variables warned about after some reads of a process. -/
def warnedAfter (T : CaseTables) (warned : List JsString) (reads : List CapRead) :
    List JsString :=
  reads.foldl (fun w r => (parseCapEnv T w r.var.name r.raw r.var.fallback).2) warned

theorem warned_read (T : CaseTables) {warned : List JsString} (h : warned.Nodup)
    (name : JsString) (raw : Option JsString) (fallback : JsNumber) :
    (parseCapEnv T warned name raw fallback).2.Nodup ∧
      ∀ x, x ∈ (parseCapEnv T warned name raw fallback).2 ↔
        x ∈ warned ∨ x = name ∧ BadCap T raw := by
  have hkept : ¬BadCap T raw → ∀ x, x ∈ warned ↔ x ∈ warned ∨ x = name ∧ BadCap T raw :=
    fun hgood x => ⟨.inl, fun hor => hor.elim id fun hbad => absurd hbad.2 hgood⟩
  rcases parseCapEnv_cases T warned name raw fallback with ⟨hword, hs⟩ | ⟨d, -, hnames, hs⟩ |
    ⟨hempty, hs⟩ | ⟨hbad, hs⟩ <;> rw [hs]
  · exact ⟨h, hkept fun hbad => hbad.2.1 hword⟩
  · exact ⟨h, hkept fun hbad => hbad.2.2 d hnames⟩
  · exact ⟨h, hkept fun hbad => hbad.1 hempty⟩
  · by_cases hmem : name ∈ warned
    · rw [if_pos hmem]
      refine ⟨h, fun x => ⟨.inl, fun hor => hor.elim id fun hx => ?_⟩⟩
      rw [hx.1]
      exact hmem
    · rw [if_neg hmem]
      refine ⟨List.nodup_append.mpr ⟨h, List.nodup_singleton _, fun a ha b hb hab => ?_⟩,
        fun x => ?_⟩
      · rw [List.mem_singleton.mp hb] at hab
        exact hmem (hab ▸ ha)
      · simp [hbad]

/-- Each variable is warned about once, if ever a text of it was bad. -/
theorem warned_once (T : CaseTables) (reads : List CapRead) {warned : List JsString}
    (h : warned.Nodup) : (warnedAfter T warned reads).Nodup ∧
      ∀ x, x ∈ warnedAfter T warned reads ↔
        x ∈ warned ∨ ∃ r ∈ reads, r.var.name = x ∧ BadCap T r.raw := by
  induction reads generalizing warned with
  | nil => exact ⟨h, fun x => by simp [warnedAfter]⟩
  | cons r rest ih =>
      obtain ⟨hnodup, hmem⟩ := warned_read T h r.var.name r.raw r.var.fallback
      obtain ⟨hrest, hiff⟩ := ih hnodup
      refine ⟨hrest, fun x => (hiff x).trans ?_⟩
      rw [hmem]
      constructor
      · rintro ((hold | ⟨rfl, hbad⟩) | ⟨q, hq, hname, hbad⟩)
        · exact .inl hold
        · exact .inr ⟨r, by simp, rfl, hbad⟩
        · exact .inr ⟨q, by simp [hq], hname, hbad⟩
      · rintro (hold | ⟨q, hq, hname, hbad⟩)
        · exact .inl (.inl hold)
        · rcases List.mem_cons.mp hq with rfl | hrest
          · exact .inl (.inr ⟨hname.symm, hbad⟩)
          · exact .inr ⟨q, hrest, hname, hbad⟩

/-! ### The environment -/

def capVariables : List CapVariable :=
  [.maxWorkflowCostUsd, .maxWorkflowTokens, .maxTokenBudget, .maxTaskTokenBudget]

/-- The variables warned about after a process has resolved its caps some times. -/
def warnedAfterAll (T : CaseTables) (warned : List JsString)
    (envs : List (JsString → Option JsString)) : List JsString :=
  envs.foldl (fun w env => (resolveSpendCaps T w env).2) warned

theorem warned_all (T : CaseTables) (envs : List (JsString → Option JsString))
    {warned : List JsString} (h : warned.Nodup) : (warnedAfterAll T warned envs).Nodup ∧
      ∀ x, x ∈ warnedAfterAll T warned envs ↔ x ∈ warned ∨
        ∃ env ∈ envs, ∃ v ∈ capVariables, v.name = x ∧ BadCap T (env v.name) := by
  induction envs generalizing warned with
  | nil => exact ⟨h, fun x => by simp [warnedAfterAll]⟩
  | cons env rest ih =>
      have hone : (resolveSpendCaps T warned env).2
          = warnedAfter T warned (capVariables.map fun v => ⟨v, env v.name⟩) := rfl
      obtain ⟨hnodup, hmem⟩ := warned_once T (capVariables.map fun v => ⟨v, env v.name⟩) h
      rw [← hone] at hnodup hmem
      obtain ⟨hrest, hiff⟩ := ih hnodup
      refine ⟨hrest, fun x => (hiff x).trans ?_⟩
      rw [hmem]
      constructor
      · rintro ((hold | ⟨r, hr, hname, hbad⟩) | ⟨env', henv, hv⟩)
        · exact .inl hold
        · obtain ⟨v, hv, rfl⟩ := List.mem_map.mp hr
          exact .inr ⟨env, by simp, v, hv, hname, hbad⟩
        · exact .inr ⟨env', by simp [henv], hv⟩
      · rintro (hold | ⟨env', henv, v, hv, hname, hbad⟩)
        · exact .inl (.inl hold)
        · rcases List.mem_cons.mp henv with rfl | hrest
          · exact .inl (.inr ⟨_, List.mem_map_of_mem hv, hname, hbad⟩)
          · exact .inr ⟨env', hrest, v, hv, hname, hbad⟩

/-- **The caps of an environment, whatever was resolved before, and the warnings.** -/
theorem caps_from_env (T : CaseTables) (envs : List (JsString → Option JsString))
    (env : JsString → Option JsString) :
    CapSound T (env (js "MAX_WORKFLOW_COST_USD")) (.finite (Decimal.ofParts 5 (-1)))
      (resolveSpendCaps T (warnedAfterAll T [] envs) env).1.maxWorkflowCostUsd ∧
    CapSound T (env (js "MAX_WORKFLOW_TOKENS")) .posInfinity
      (resolveSpendCaps T (warnedAfterAll T [] envs) env).1.maxWorkflowTokens ∧
    CapSound T (env (js "MAX_TOKEN_BUDGET")) (JsNumber.ofInt 200000)
      (resolveSpendCaps T (warnedAfterAll T [] envs) env).1.maxTokenBudget ∧
    CapSound T (env (js "MAX_TASK_TOKEN_BUDGET")) (JsNumber.ofInt 50000)
      (resolveSpendCaps T (warnedAfterAll T [] envs) env).1.maxTaskTokenBudget ∧
    (warnedAfterAll T [] envs).Nodup ∧ ∀ x, x ∈ warnedAfterAll T [] envs ↔
      ∃ env ∈ envs, ∃ v ∈ capVariables, v.name = x ∧ BadCap T (env v.name) := by
  obtain ⟨hnodup, hmem⟩ := warned_all T envs List.nodup_nil
  refine ⟨capSound T _ _ _ _, capSound T _ _ _ _, capSound T _ _ _ _, capSound T _ _ _ _, hnodup,
    fun x => (hmem x).trans ?_⟩
  simp

/-! ### A workflow under its environment -/

namespace Orchestrator

section

variable [Arithmetic] {ν : Type} {opts : OrchestratorOptions ν} {s s' : Orchestrator ν}
  {e : OrchestratorEvent ν}

theorem checkStop_kept (s : Orchestrator ν) :
    s.checkStop.budget = s.budget ∧ s.checkStop.begun = s.begun := by
  rcases s.checkStop_cases with ⟨-, h⟩ | ⟨detail, -, -, h⟩ <;> rw [h] <;> exact ⟨rfl, rfl⟩

/-- A step keeps the budget, and begins something only in a workflow that is not stopped,
unless it is a restart. -/
theorem budget_step (h : s.step opts e = some s') :
    (s'.budget = s.budget ∧ ∀ c ∈ s'.begun, c ∈ s.begun ∨ s.stop = none) ∨
      ∃ budget, e = .crash budget ∧ s'.budget = budget ∧ s'.begun = [] := by
  have hsame : ∀ {t : Orchestrator ν}, s'.control = t.control → t.budget = s.budget →
      t.begun = s.begun → s'.budget = s.budget ∧ ∀ c ∈ s'.begun, c ∈ s.begun ∨ s.stop = none := by
    intro t hs hbudget hbegun
    have hb : s'.begun = t.begun := congrArg Control.begun hs
    refine ⟨(congrArg Control.budget hs).trans hbudget, fun c hc => .inl ?_⟩
    rw [← hbegun, ← hb]
    exact hc
  cases control_step h with
  | quiet _ hs => exact .inl (hsame hs rfl rfl)
  | accounted _ step amount hs =>
      obtain ⟨hbudget, hbegun⟩ := (s.charged step amount).checkStop_kept
      rcases hs with hs | ⟨-, hs⟩
      · exact .inl (hsame hs hbudget hbegun)
      · exact .inl (hsame hs rfl rfl)
  | unaccounted _ _ name _ value _ _ hs => exact .inl (hsame hs rfl rfl)
  | restored l record ledger saved _ _ _ hs =>
      obtain ⟨stop, reports, hr⟩ := s.restore_frame (record.getD .empty) ledger saved
      rw [hr] at hs
      exact .inl (hsame hs rfl rfl)
  | began c kind name cp _ hstop _ hs =>
      exact .inl ⟨congrArg Control.budget hs, fun _ _ => .inr hstop⟩
  | signalled hs => exact .inl (hsame hs rfl rfl)
  | wiped hs => exact .inl (hsame hs rfl rfl)
  | crashed budget hs =>
      rw [hs]
      exact .inr ⟨budget, rfl, rfl, rfl⟩

end

end Orchestrator

attribute [local instance] Arithmetic.double

/-- The budget comes from an environment that leaves its cost ceiling. -/
def CostCapped (T : CaseTables) (budget : WorkflowBudget) : Prop :=
  ∃ warned env, ¬TakesCapAway T (env (js "MAX_WORKFLOW_COST_USD")) ∧
    budget = (workflowBudgetFromEnv T warned env).1

/-- A number whose double is positive and finite is a ceiling. -/
theorem isCapped_of_double {d : Decimal} (h : isPositiveDouble d = true) :
    ∃ c, isCapped (.finite d) = some c ∧ 0 < c := by
  have hpos := isPositiveDouble_pos h
  obtain ⟨hlow, hhigh⟩ := Bool.and_eq_true_iff.mp h
  obtain ⟨c, hround, hc⟩ := Double.round_positive (d := ⟨d, hpos.le⟩) (of_decide_eq_true hlow)
    (of_decide_eq_true hhigh)
  have hnumber : (cleanNumber (some (.finite d))).number = c := by
    show (Double.round (cleanNumber (some (.finite d)))).untopD 0 = c
    rw [show cleanNumber (some (.finite d)) = ⟨d, hpos.le⟩ from dif_pos hpos, hround]
    rfl
  refine ⟨c, ?_, hc⟩
  unfold isCapped
  rw [hnumber]
  exact if_pos hc

theorem CostCapped.ceiling {budget : WorkflowBudget} (h : CostCapped T budget) :
    ∃ c, isCapped budget.maxCostUsd = some c ∧ 0 < c := by
  obtain ⟨warned, env, hword, rfl⟩ := h
  have hsound := capSound T warned (js "MAX_WORKFLOW_COST_USD") (env (js "MAX_WORKFLOW_COST_USD"))
    defaultMaxWorkflowCostUsd
  have hcap : ∃ d, (workflowBudgetFromEnv T warned env).1.maxCostUsd = .finite d ∧
      isPositiveDouble d = true := by
    by_cases hnames : ∃ d, NamesCap (env (js "MAX_WORKFLOW_COST_USD")) d
    · obtain ⟨d, hd⟩ := hnames
      exact ⟨d, hsound.named d hword hd, positiveNumber_double hd⟩
    · refine ⟨Decimal.ofParts 5 (-1), hsound.otherwise hword (not_exists.mp hnames), ?_⟩
      decide +kernel
  obtain ⟨d, hd, hdouble⟩ := hcap
  rw [hd]
  exact isCapped_of_double hdouble

namespace Orchestrator

/-- **A workflow begins work only below its cost ceiling**, as long as no environment it is
started in takes the ceiling away. -/
theorem workflow_capped {ν : Type} {opts : OrchestratorOptions ν} {s s' : Orchestrator ν}
    {e : OrchestratorEvent ν} {budget : WorkflowBudget} (hbudget : CostCapped T budget)
    {store : Option Checkpoint} {ledger : List Charge} {es : List (OrchestratorEvent ν)}
    (hes : ∀ b, .crash b ∈ es → CostCapped T b)
    (hrun : Steps.run (step opts) (fresh budget store ledger) es = some s)
    (hstep : s.step opts e = some s') {c : ℕ} (hbegun : c ∈ s'.begun) (hnew : c ∉ s.begun) :
    CostCapped T s.budget ∧ ∃ ceiling : Amount, isCapped s.budget.maxCostUsd = some ceiling ∧
      0 < ceiling ∧ s.totals.estimatedCost < ceiling := by
  have hinv : StopExact s ∧ CostCapped T s.budget := by
    have halong : Steps.Along (step opts) (fun _ f => ∀ b, f = .crash b → CostCapped T b)
        (fresh budget store ledger) es := by
      refine Steps.along_of_mem es _ fun f hf b hb => ?_
      subst hb
      exact hes b hf
    refine Steps.run_invariant (P := fun t => StopExact t ∧ CostCapped T t.budget) ?_
      ⟨stopExact_fresh budget store ledger, hbudget⟩ halong hrun
    intro t f t' ht hcrash hf
    obtain ⟨hexact, hcapped⟩ := ht
    refine ⟨stopExact_step hexact hf, ?_⟩
    rcases budget_step hf with ⟨hkept, -⟩ | ⟨b, hb, hnewBudget, -⟩
    · rw [hkept]
      exact hcapped
    · rw [hnewBudget]
      exact hcrash b hb
  obtain ⟨ceiling, hceiling, hpos⟩ := hinv.2.ceiling
  refine ⟨hinv.2, ceiling, hceiling, hpos, ?_⟩
  have hstop : s.stop = none := by
    rcases budget_step hstep with ⟨-, hkept⟩ | ⟨b, -, -, hempty⟩
    · exact (hkept c hbegun).resolve_left hnew
    · rw [hempty] at hbegun
      exact absurd hbegun (by simp)
  by_contra hreached
  have hset := hinv.1.reached.mpr (.inr ⟨ceiling, hceiling, not_lt.mp hreached⟩)
  rw [hstop] at hset
  exact absurd hset (by simp)

/-- The budget when every variable has the same text. -/
def sameText (raw : Option JsString) : WorkflowBudget :=
  (workflowBudgetFromEnv .basic [] fun _ => raw).1

theorem sameText_capped {raw : Option JsString} (h : ¬TakesCapAway .basic raw) :
    CostCapped .basic (sameText raw) := ⟨[], fun _ => raw, h, rfl⟩

/-- A workflow that spends, is restarted with `0` in the environment, and begins a step. -/
def zeroInEnv : List (OrchestratorEvent Unit) :=
  [.recordSpend ⟨JsNumber.ofInt 12, .finite (Decimal.ofParts 1 (-1))⟩,
    .crash (sameText (some (js "0"))), .call .runStep (js "plan"), .storeReads 0, .loadReturns 0,
    .loaded 0, .checked 0]

theorem workflow_capped_zero : ∃ s s',
    Steps.run (step plainOptions) (fresh (sameText none) none []) zeroInEnv = some s ∧
    s.step plainOptions (.enters 0) = some s' ∧ 0 ∈ s'.begun ∧
    ∃ ceiling : Amount, isCapped s.budget.maxCostUsd = some ceiling ∧ 0 < ceiling ∧
      s.totals.estimatedCost < ceiling := by
  have hsome : ((Steps.run (step plainOptions) (fresh (sameText none) none []) zeroInEnv).any
      fun s => s.begun = [] ∧ (s.step plainOptions (.enters 0)).any fun t => 0 ∈ t.begun)
      = true := by decide +kernel
  obtain ⟨s, hrun, hs⟩ := (Option.any_eq_true _ _).mp hsome
  obtain ⟨hnone, hany⟩ := of_decide_eq_true hs
  obtain ⟨s', hstep, hbegun⟩ := (Option.any_eq_true _ _).mp hany
  have hnew : 0 ∉ s.begun := by
    rw [hnone]
    exact List.not_mem_nil
  have hcrashes : ∀ b, .crash b ∈ zeroInEnv → CostCapped .basic b := by
    intro b hb
    obtain rfl : b = sameText (some (js "0")) := by simpa [zeroInEnv] using hb
    exact sameText_capped (by unfold TakesCapAway; decide +kernel)
  have hfirst : CostCapped .basic (sameText none) :=
    sameText_capped (by unfold TakesCapAway; decide +kernel)
  exact ⟨s, s', hrun, hstep, of_decide_eq_true hbegun,
    (workflow_capped hfirst hcrashes hrun hstep (of_decide_eq_true hbegun) hnew).2⟩

end Orchestrator

end Kaiban
