/-
The load of the checkpoint.

At most one load of a generation is under way, and it is the one new calls wait for.  So
once a load of the generation has succeeded the map of the instance stays until the next
reset, and every call that passes its load in a generation has been given the same map.
-/
import Kaiban.Proofs.Orchestrator.Calls

open JsString

namespace Kaiban.Orchestrator

variable {ν : Type} {opts : OrchestratorOptions ν} {s s' : Orchestrator ν}

/-- The fields about loads. -/
structure LoadView where
  loads : ℕ → Load
  loadCount : ℕ
  loading : Option LoadRef
  generation : ℕ
  checkpoint : ℕ

def loadView (s : Orchestrator ν) : LoadView :=
  ⟨s.loads, s.loadCount, s.loading, s.generation, s.checkpoint⟩

/-- What a step does to these fields. -/
inductive LoadsChange (s s' : Orchestrator ν) : OrchestratorEvent ν → Prop
  | quiet (e : OrchestratorEvent ν) (h : s'.loadView = s.loadView) : LoadsChange s s' e
  | asked (e : OrchestratorEvent ν) (h : s'.loadView = s.ensureLoaded.1.loadView) :
      LoadsChange s s' e
  | read (l : ℕ) (hl : l < s.loadCount) (hp : (s.loads l).phase = .reading)
      (h : s'.loadView = (s.setLoad l (.read s.store s.storeLedger)).loadView) :
      LoadsChange s s' (.storeReads l)
  | discarded (l : ℕ) (record : Option Checkpoint) (ledger : List Charge)
      (hp : (s.loads l).phase = .read record ledger)
      (hgen : (s.loads l).generation ≠ s.generation)
      (h : s'.loadView = (s.setLoad l (.settled true)).loadView) :
      LoadsChange s s' (.loadReturns l)
  | restored (l : ℕ) (record : Option Checkpoint) (ledger : List Charge)
      (hp : (s.loads l).phase = .read record ledger)
      (hgen : (s.loads l).generation = s.generation)
      (h : s'.loadView = ((s.withSteps record).setLoad l (.settled true)).loadView) :
      LoadsChange s s' (.loadReturns l)
  /-- The spend entry of the record is broken. -/
  | broken (l : ℕ) (record : Option Checkpoint) (ledger : List Charge)
      (hp : (s.loads l).phase = .read record ledger)
      (hgen : (s.loads l).generation = s.generation)
      (h : s'.loadView = ((s.withSteps record).loadFailed l).loadView) :
      LoadsChange s s' (.loadReturns l)
  | threw (l : ℕ) (hl : l < s.loadCount) (hp : (s.loads l).phase = .reading)
      (h : s'.loadView = (s.loadFailed l).loadView) : LoadsChange s s' (.loadThrows l)
  | wiped (h : s'.loadView = s.reset.loadView) : LoadsChange s s' .jobStarts
  | crashed (budget : WorkflowBudget) (h : s' = fresh budget s.store s.storeLedger) :
      LoadsChange s s' (.crash budget)

variable [Arithmetic] in
/-- **Every step changes these fields in one of the listed ways.** -/
theorem loads_step {e : OrchestratorEvent ν} (hstep : s.step opts e = some s') :
    LoadsChange s s' e := by
  cases transition hstep with
  | called kind name =>
      rcases s.startCall_cases kind name with ⟨-, -, hs⟩ | ⟨-, hs⟩ <;> rw [hs]
      · exact .quiet _ rfl
      · exact .asked _ rfl
  | recorded delta =>
      obtain ⟨stop, reports, hs⟩ := s.recordSpend_frame delta
      rw [hs]
      exact .quiet _ rfl
  | storeRead l hl hp => exact .read l hl hp rfl
  | loadReturned l record ledger hp =>
      rcases s.loadReturned_cases l record ledger with ⟨hgen, hs⟩ | ⟨hgen, -, hs⟩ |
        ⟨saved, hgen, -, hs⟩ <;> rw [hs]
      · exact .discarded l record ledger hp hgen rfl
      · exact .broken l record ledger hp hgen rfl
      · refine .restored l record ledger hp hgen ?_
        obtain ⟨stop, reports, hr⟩ :=
          (s.withSteps record).restore_frame (record.getD .empty) ledger saved
        rw [hr]
        rfl
  | loadThrew l hl hp => exact .threw l hl hp rfl
  | callLoaded c kind name generation ref ok hc ho =>
      rcases s.callLoaded_cases c kind generation ok with ⟨-, hs⟩ | ⟨-, -, b, hs⟩ |
        ⟨-, -, hs⟩ <;> rw [hs] <;> exact .quiet _ rfl
  | callChecked c kind name generation cp hc =>
      rcases s.callChecked_cases c name generation cp with ⟨-, hs⟩ | ⟨-, hs⟩ <;> rw [hs] <;>
        exact .quiet _ rfl
  | entered c kind name cp hc =>
      rcases enter_cases opts s c kind name cp with ⟨e, -, hs⟩ | ⟨-, -, hs⟩ |
        ⟨err, -, -, -, hs⟩ | ⟨-, -, -, -, hs⟩ <;> rw [hs] <;> exact .quiet _ rfl
  | dispatched c kind name cp r hc =>
      rcases s.dispatched_cases c name cp r with ⟨-, hs⟩ | ⟨taskId, result, -, -, hs⟩ |
        ⟨taskId, -, -, hs⟩ <;> rw [hs] <;> exact .quiet _ rfl
  | waited c kind name cp taskId r hc =>
      rcases waited_cases opts s c name cp taskId r with ⟨-, hs⟩ | ⟨result, -, hs⟩ <;> rw [hs]
      · exact .quiet _ rfl
      · obtain ⟨totals, stop, reports, hp⟩ := paid_frame opts s name (.inl result)
        rw [hp]
        exact .quiet _ rfl
  | continued c kind name cp value hc =>
      rcases continued_cases opts s c name cp value with ⟨-, hs⟩ | ⟨result, -, hs⟩ <;> rw [hs]
      · exact .quiet _ rfl
      · obtain ⟨totals, stop, reports, hp⟩ := paid_frame opts s name (.inr value)
        rw [hp]
        exact .quiet _ rfl
  | jobStarted job rest hj hp =>
      rcases s.jobStarted_cases job rest with ⟨owner, -, hs⟩ | ⟨-, hs⟩ <;> rw [hs]
      · exact .asked _ rfl
      · exact .wiped rfl
  | jobLoaded job rest ref ok hj hp ho =>
      rcases s.jobLoaded_cases job rest ok with ⟨-, hs⟩ | ⟨-, -, -, hs⟩ | ⟨-, -, hs⟩ <;> rw [hs]
      · obtain ⟨calls, hl⟩ := s.jobSettled_frame job rest false
        rw [hl]
        exact .quiet _ rfl
      · obtain ⟨calls, hl⟩ := s.jobSettled_frame job rest true
        rw [hl]
        exact .quiet _ rfl
      · exact .quiet _ rfl
  | jobReturned job rest hj hp =>
      obtain ⟨calls, hl⟩ := s.jobSettled_frame job rest true
      rw [hl]
      exact .quiet _ rfl
  | jobThrew job rest hj hp =>
      obtain ⟨calls, hl⟩ := s.jobSettled_frame job rest false
      rw [hl]
      exact .quiet _ rfl
  | crashed budget => exact .crashed budget rfl
  | _ => exact .quiet _ rfl

/-! ### The current load -/

/-- The checkpoint was loaded, or a reset has left an empty one. -/
def Ready (s : Orchestrator ν) : Prop := ∃ ref, s.loading = some ref ∧ s.outcome ref = some true

/-- The loads are numbered, and one that is under way in this generation is the current
one. -/
structure LoadsOk (s : Orchestrator ν) : Prop where
  unasked : ∀ l, s.loadCount ≤ l → (s.loads l).phase = .reading
  generations : ∀ l, l < s.loadCount → (s.loads l).generation ≤ s.generation
  current : ∀ l, l < s.loadCount → (s.loads l).generation = s.generation →
    (∀ ok, (s.loads l).phase ≠ .settled ok) → s.loading = some (.load l)

theorem loadsOk_fresh (budget : WorkflowBudget) (store : Option Checkpoint)
    (ledger : List Charge) : LoadsOk (fresh budget store ledger : Orchestrator ν) where
  unasked _ _ := rfl
  generations _ h := absurd h (by simp [fresh])
  current _ h := absurd h (by simp [fresh])

/-- A load whose record was read was asked for. -/
theorem LoadsOk.asked (h : LoadsOk s) {l : ℕ} (hp : (s.loads l).phase ≠ .reading) :
    l < s.loadCount := by
  by_contra hge
  exact hp (h.unasked l (not_lt.mp hge))

theorem LoadsOk.ensureLoaded (h : LoadsOk s) : LoadsOk s.ensureLoaded.1 := by
  rcases s.ensureLoaded_cases with ⟨ref, -, hs⟩ | ⟨hnone, hs⟩ <;> rw [hs]
  · exact h
  · refine ⟨fun l hl => ?_, fun l hl => ?_, fun l hl hgen hopen => ?_⟩
    · have hne : l ≠ s.loadCount := Nat.ne_of_gt hl
      show (if l = s.loadCount then _ else s.loads l).phase = _
      rw [if_neg hne]
      exact h.unasked l (Nat.le_of_succ_le hl)
    · show (if l = s.loadCount then _ else s.loads l).generation ≤ _
      split
      · exact le_rfl
      · rename_i hne
        exact h.generations l (lt_of_le_of_ne (Nat.lt_succ_iff.mp hl) hne)
    · by_cases hne : l = s.loadCount
      · rw [hne]
      · have hgen' : (if l = s.loadCount then ⟨s.generation, .reading⟩
          else s.loads l).generation = s.generation := hgen
        have hopen' : ∀ ok, (if l = s.loadCount then ⟨s.generation, .reading⟩
          else s.loads l).phase ≠ .settled ok := hopen
        rw [if_neg hne] at hgen' hopen'
        have hlt : l < s.loadCount := lt_of_le_of_ne (Nat.lt_succ_iff.mp hl) hne
        exact absurd (hnone.symm.trans (h.current l hlt hgen' hopen')) (by simp)

/-- A load goes on. -/
theorem LoadsOk.setLoad (h : LoadsOk s) {l : ℕ} {phase : LoadPhase} (hl : l < s.loadCount)
    (hopen : ∀ ok, (s.loads l).phase ≠ .settled ok) : LoadsOk (s.setLoad l phase) := by
  have hgen : ∀ x, ((s.setLoad l phase).loads x).generation = (s.loads x).generation := by
    intro x
    show (if x = l then _ else s.loads x).generation = _
    split <;> rfl
  refine ⟨fun x hx => ?_, fun x hx => ?_, fun x hx hxgen hxopen => ?_⟩
  · have hne : x ≠ l := Nat.ne_of_gt (lt_of_lt_of_le hl hx)
    show (if x = l then _ else s.loads x).phase = _
    rw [if_neg hne]
    exact h.unasked x hx
  · rw [hgen]
    exact h.generations x hx
  · rw [hgen] at hxgen
    by_cases hxl : x = l
    · exact hxl ▸ h.current l hl (hxl ▸ hxgen) hopen
    · refine h.current x hx hxgen fun ok => ?_
      have hxopen' : (if x = l then ⟨(s.loads x).generation, phase⟩
        else s.loads x).phase ≠ .settled ok := hxopen ok
      rwa [if_neg hxl] at hxopen'

/-- A load that fails leaves no current one. -/
theorem LoadsOk.failed (h : LoadsOk s) {l : ℕ} (hl : l < s.loadCount)
    (hopen : ∀ ok, (s.loads l).phase ≠ .settled ok) : LoadsOk (s.loadFailed l) := by
  rcases s.loadFailed_cases l with ⟨hcurrent, hs⟩ | ⟨-, hs⟩ <;> rw [hs]
  · have hset : LoadsOk (s.setLoad l (.settled false)) := h.setLoad hl hopen
    refine ⟨hset.unasked, hset.generations, fun x hx hgen hxopen => ?_⟩
    have hloading : s.loading = some (.load x) := hset.current x hx hgen hxopen
    have hxl : LoadRef.load l = .load x := Option.some.inj (hcurrent.symm.trans hloading)
    obtain rfl : l = x := by simpa using hxl
    exact absurd (congrArg Load.phase (if_pos rfl)) (hxopen false)
  · exact h.setLoad hl hopen

theorem LoadsOk.reset (h : LoadsOk s) : LoadsOk s.reset where
  unasked := h.unasked
  generations l hl := (h.generations l hl).trans (Nat.le_succ _)
  current l hl hgen := by
    have hle := h.generations l hl
    have hgen' : (s.loads l).generation = s.generation + 1 := hgen
    omega

theorem LoadsOk.of_view (h : LoadsOk s) (heq : s'.loadView = s.loadView) : LoadsOk s' := by
  simp only [loadView, LoadView.mk.injEq] at heq
  obtain ⟨hloads, hcount, hloading, hgeneration, -⟩ := heq
  refine ⟨?_, ?_, ?_⟩
  · rw [hcount, hloads]
    exact h.unasked
  · rw [hcount, hloads, hgeneration]
    exact h.generations
  · rw [hcount, hloads, hloading, hgeneration]
    exact h.current

theorem LoadsOk.withSteps (h : LoadsOk s) (record : Option Checkpoint) :
    LoadsOk (s.withSteps record) := ⟨h.unasked, h.generations, h.current⟩

variable [Arithmetic] in
/-- **Every step keeps the loads in order.** -/
theorem loadsOk_step {e : OrchestratorEvent ν} (h : LoadsOk s) (hstep : s.step opts e = some s') :
    LoadsOk s' := by
  cases loads_step hstep with
  | quiet _ heq => exact h.of_view heq
  | asked _ heq => exact h.ensureLoaded.of_view heq
  | read l hl hp heq => exact (h.setLoad hl (by simp [hp])).of_view heq
  | discarded l record ledger hp hgen heq =>
      exact (h.setLoad (h.asked (by simp [hp])) (by simp [hp])).of_view heq
  | restored l record ledger hp hgen heq =>
      exact ((h.withSteps record).setLoad (h.asked (by simp [hp]))
        (by simp [hp, withSteps])).of_view
        heq
  | broken l record ledger hp hgen heq =>
      exact ((h.withSteps record).failed (h.asked (by simp [hp])) (by simp [hp, withSteps])).of_view
        heq
  | threw l hl hp heq => exact (h.failed hl (by simp [hp])).of_view heq
  | wiped heq => exact h.reset.of_view heq
  | crashed budget heq =>
      rw [heq]
      exact loadsOk_fresh _ _ _

/-! ### What a step leaves of the current load -/

/-- A step keeps the generation and what has settled, and the map once that is ready; or it
is a reset, or a crash. -/
inductive LoadStep (s s' : Orchestrator ν) : Prop
  | kept (hgen : s'.generation = s.generation) (hle : s.checkpoint ≤ s'.checkpoint)
      (hsettled : ∀ ref ok, s.outcome ref = some ok → s'.outcome ref = some ok)
      (hwaited : ∀ ref, s.loading = some ref →
        s'.loading = some ref ∨ s'.outcome ref = some false)
      (hready : s.Ready → s'.Ready ∧ s'.checkpoint = s.checkpoint) : LoadStep s s'
  | wiped (hgen : s'.generation = s.generation + 1)
      (hcheckpoint : s'.checkpoint = s.checkpoint + 1) (hready : s'.Ready)
      (hsettled : ∀ ref ok, s.outcome ref = some ok → s'.outcome ref = some ok) : LoadStep s s'
  | crashed (budget : WorkflowBudget) (h : s' = fresh budget s.store s.storeLedger) :
      LoadStep s s'

theorem outcome_of_loads (h : s'.loads = s.loads) (ref : LoadRef) :
    s'.outcome ref = s.outcome ref := by
  unfold outcome
  rw [h]

theorem outcome_load {l : ℕ} {ok : Bool} :
    s.outcome (.load l) = some ok ↔ (s.loads l).phase = .settled ok := by
  unfold outcome
  dsimp only
  cases (s.loads l).phase <;> simp

/-- What a load becomes leaves the others. -/
theorem outcome_setLoad {l : ℕ} (hopen : ∀ ok, (s.loads l).phase ≠ .settled ok)
    (phase : LoadPhase) {ref : LoadRef} {ok : Bool} (h : s.outcome ref = some ok) :
    (s.setLoad l phase).outcome ref = some ok := by
  cases ref with
  | reset => exact h
  | load x =>
      rw [outcome_load] at h ⊢
      have hxl : x ≠ l := by
        rintro rfl
        exact hopen ok h
      have hsame : (s.setLoad l phase).loads x = s.loads x := if_neg hxl
      rw [hsame]
      exact h

theorem outcome_settled (s : Orchestrator ν) (l : ℕ) (ok : Bool) :
    (s.setLoad l (.settled ok)).outcome (.load l) = some ok := by
  have hset : (s.setLoad l (.settled ok)).loads l = ⟨(s.loads l).generation, .settled ok⟩ :=
    if_pos rfl
  rw [outcome_load, hset]

/-- A load that is under way is not what has made the map ready. -/
theorem Ready.settled (h : s.Ready) {l : ℕ} (hcurrent : s.loading = some (.load l)) :
    (s.loads l).phase = .settled true := by
  obtain ⟨ref, hloading, ho⟩ := h
  obtain rfl := Option.some.inj (hcurrent.symm.trans hloading)
  exact outcome_load.mp ho

/-- The current load fails, or one that a reset has replaced. -/
theorem LoadStep.failed {t : Orchestrator ν} {l : ℕ}
    (hview : s'.loadView = (t.loadFailed l).loadView)
    (hloads : t.loads = s.loads) (hloading : t.loading = s.loading)
    (hgen : t.generation = s.generation) (hopen : ∀ ok, (s.loads l).phase ≠ .settled ok)
    (hle : s.checkpoint ≤ t.checkpoint)
    (hcheckpoint : t.checkpoint = s.checkpoint ∨ s.loading = some (.load l)) : LoadStep s s' := by
  have hout : ∀ ref, t.outcome ref = s.outcome ref := outcome_of_loads hloads
  have hopen' : ∀ ok, (t.loads l).phase ≠ .settled ok := hloads ▸ hopen
  simp only [loadView, LoadView.mk.injEq] at hview
  obtain ⟨hl, -, hload, hg, hc⟩ := hview
  rcases t.loadFailed_cases l with ⟨hcurrent, hs⟩ | ⟨hother, hs⟩ <;> rw [hs] at hl hload hg hc
  · have hout' : ∀ ref, s'.outcome ref = (t.setLoad l (.settled false)).outcome ref :=
      outcome_of_loads hl
    refine .kept (hg.trans hgen) (hle.trans_eq hc.symm) (fun ref ok ho => ?_)
      (fun ref href => .inr ?_) fun hready => ?_
    · rw [hout']
      exact outcome_setLoad hopen' _ ((hout ref).trans ho)
    · obtain rfl : LoadRef.load l = ref :=
        Option.some.inj ((hcurrent.symm.trans hloading).trans href)
      rw [hout']
      exact outcome_settled t l false
    · exact absurd (hready.settled (hloading ▸ hcurrent)) (hopen true)
  · have hout' : ∀ ref, s'.outcome ref = (t.setLoad l (.settled true)).outcome ref :=
      outcome_of_loads hl
    have hkept : ∀ ref ok, s.outcome ref = some ok → s'.outcome ref = some ok := by
      intro ref ok ho
      rw [hout']
      exact outcome_setLoad hopen' _ ((hout ref).trans ho)
    refine .kept (hg.trans hgen) (hle.trans_eq hc.symm) hkept (fun ref href => .inl ?_)
      fun hready => ?_
    · exact (hload.trans hloading).trans href
    · obtain ⟨ref, href, ho⟩ := hready
      refine ⟨⟨ref, (hload.trans hloading).trans href, hkept ref true ho⟩, ?_⟩
      exact hc.trans (hcheckpoint.resolve_right fun h => hother (hloading.trans h))

variable [Arithmetic] in
theorem loadStep {e : OrchestratorEvent ν} (h : LoadsOk s) (hstep : s.step opts e = some s') :
    LoadStep s s' := by
  -- The load that goes on is not one that has settled.
  have hset : ∀ (l : ℕ) (phase : LoadPhase), (∀ ok, (s.loads l).phase ≠ .settled ok) →
      s'.loads = (s.setLoad l phase).loads → s'.loading = s.loading →
      s'.generation = s.generation → s.checkpoint ≤ s'.checkpoint →
      (s.Ready → s'.checkpoint = s.checkpoint) → LoadStep s s' := by
    intro l phase hopen hloads hloading hgen hle hcheckpoint
    have hkept : ∀ ref ok, s.outcome ref = some ok → s'.outcome ref = some ok := by
      intro ref ok ho
      rw [outcome_of_loads (s := s.setLoad l phase) hloads]
      exact outcome_setLoad hopen phase ho
    refine .kept hgen hle hkept (fun ref href => .inl (hloading.trans href)) fun hready => ?_
    have hcp := hcheckpoint hready
    obtain ⟨ref, href, ho⟩ := hready
    exact ⟨⟨ref, hloading.trans href, hkept ref true ho⟩, hcp⟩
  cases loads_step hstep with
  | quiet _ heq =>
      simp only [loadView, LoadView.mk.injEq] at heq
      obtain ⟨hloads, -, hloading, hgen, hcheckpoint⟩ := heq
      have hout := outcome_of_loads hloads
      refine .kept hgen hcheckpoint.ge (fun ref ok ho => (hout ref).trans ho)
        (fun ref href => .inl (hloading.trans href)) ?_
      rintro ⟨ref, href, ho⟩
      exact ⟨⟨ref, hloading.trans href, (hout ref).trans ho⟩, hcheckpoint⟩
  | asked _ heq =>
      rcases s.ensureLoaded_cases with ⟨ref, -, hs⟩ | ⟨hnone, hs⟩ <;> rw [hs] at heq <;>
        simp only [loadView, LoadView.mk.injEq] at heq <;>
        obtain ⟨hloads, -, hloading, hgen, hcheckpoint⟩ := heq
      · have hout := outcome_of_loads hloads
        refine .kept hgen hcheckpoint.ge (fun ref ok ho => (hout ref).trans ho)
          (fun ref href => .inl (hloading.trans href)) ?_
        rintro ⟨ref, href, ho⟩
        exact ⟨⟨ref, hloading.trans href, (hout ref).trans ho⟩, hcheckpoint⟩
      · refine .kept hgen hcheckpoint.ge (fun ref ok ho => ?_)
          (fun ref href => absurd (hnone.symm.trans href) (by simp)) ?_
        · cases ref with
          | reset => exact ho
          | load x =>
              rw [outcome_load] at ho ⊢
              have hx : x ≠ s.loadCount := by
                rintro rfl
                exact absurd ((h.unasked _ le_rfl).symm.trans ho) (by simp)
              rw [hloads]
              exact (congrArg Load.phase (if_neg hx)).trans ho
        · rintro ⟨ref, href, -⟩
          exact absurd (hnone.symm.trans href) (by simp)
  | read l hl hp heq =>
      simp only [loadView, LoadView.mk.injEq] at heq
      exact hset l _ (by simp [hp]) heq.1 heq.2.2.1 heq.2.2.2.1 heq.2.2.2.2.ge
        fun _ => heq.2.2.2.2
  | discarded l record ledger hp hgen heq =>
      simp only [loadView, LoadView.mk.injEq] at heq
      exact hset l _ (by simp [hp]) heq.1 heq.2.2.1 heq.2.2.2.1 heq.2.2.2.2.ge
        fun _ => heq.2.2.2.2
  | restored l record ledger hp hgen heq =>
      simp only [loadView, LoadView.mk.injEq] at heq
      have hcurrent := h.current l (h.asked (by simp [hp])) hgen (by simp [hp])
      have hle : s.checkpoint ≤ s'.checkpoint := (Nat.le_succ _).trans_eq heq.2.2.2.2.symm
      refine hset l _ (by simp [hp]) heq.1 heq.2.2.1 heq.2.2.2.1 hle fun hready => ?_
      exact absurd ((hready.settled hcurrent).symm.trans hp) (by simp)
  | broken l record ledger hp hgen heq =>
      have hcurrent := h.current l (h.asked (by simp [hp])) hgen (by simp [hp])
      exact .failed heq rfl rfl rfl (by simp [hp]) (Nat.le_succ _) (.inr hcurrent)
  | threw l hl hp heq => exact .failed heq rfl rfl rfl (by simp [hp]) le_rfl (.inl rfl)
  | wiped heq =>
      simp only [loadView, LoadView.mk.injEq] at heq
      obtain ⟨hloads, -, hloading, hgen, hcheckpoint⟩ := heq
      have hout := outcome_of_loads (s := s) hloads
      exact .wiped hgen hcheckpoint ⟨.reset, hloading, rfl⟩ fun ref ok ho => (hout ref).trans ho
  | crashed budget heq => exact .crashed budget heq

/-! ### What the calls have been given -/

/-- A call waits for the current load, or for one that failed; and once it is past it, in
the generation it came in, the map is ready and is the one it was given. -/
structure Loading (s : Orchestrator ν) : Prop where
  ok : LoadsOk s
  waiting : ∀ c kind name generation ref,
    s.calls c = some ⟨kind, name, .loading generation ref⟩ → generation ≤ s.generation ∧
      (generation = s.generation → s.loading = some ref ∨ s.outcome ref = some false)
  given : ∀ c kind name generation cp,
    s.calls c = some ⟨kind, name, .loaded generation cp⟩ → generation ≤ s.generation ∧
      (generation = s.generation → s.Ready ∧ cp = s.checkpoint)

theorem loading_fresh (budget : WorkflowBudget) (store : Option Checkpoint)
    (ledger : List Charge) : Loading (fresh budget store ledger : Orchestrator ν) where
  ok := loadsOk_fresh budget store ledger
  waiting _ _ _ _ _ h := absurd h (by simp [fresh])
  given _ _ _ _ _ h := absurd h (by simp [fresh])

/-- The calls that are past their load have the map of their generation. -/
theorem Loading.of_step (h : Loading s) (hok : LoadsOk s') (hl : LoadStep s s')
    (hwaiting : ∀ c kind name generation ref,
      s'.calls c = some ⟨kind, name, .loading generation ref⟩ →
      s.calls c = some ⟨kind, name, .loading generation ref⟩ ∨
        generation = s'.generation ∧ s'.loading = some ref)
    (hgiven : ∀ c kind name generation cp,
      s'.calls c = some ⟨kind, name, .loaded generation cp⟩ →
      s.calls c = some ⟨kind, name, .loaded generation cp⟩ ∨
        ∃ ref, s.calls c = some ⟨kind, name, .loading generation ref⟩ ∧
          s.outcome ref = some true ∧ cp = s.checkpoint) : Loading s' := by
  refine ⟨hok, fun c kind name generation ref hc => ?_, fun c kind name generation cp hc => ?_⟩
  · rcases hwaiting c kind name generation ref hc with hold | ⟨rfl, hloading⟩
    · obtain ⟨hle, hcurrent⟩ := h.waiting c kind name generation ref hold
      cases hl with
      | kept hgen _ hsettled hwaited hready =>
          rw [hgen]
          refine ⟨hle, fun heq => ?_⟩
          rcases hcurrent heq with hloading | hfailed
          · exact hwaited ref hloading
          · exact .inr (hsettled ref false hfailed)
      | wiped hgen _ hready hsettled =>
          rw [hgen]
          exact ⟨hle.trans (Nat.le_succ _), fun heq => by omega⟩
      | crashed budget heq =>
          subst heq
          exact absurd hc (by simp [fresh])
    · exact ⟨le_rfl, fun _ => .inl hloading⟩
  · have hpast : generation ≤ s.generation ∧
        (generation = s.generation → s.Ready ∧ cp = s.checkpoint) := by
      rcases hgiven c kind name generation cp hc with hold | ⟨ref, hold, ho, rfl⟩
      · exact h.given c kind name generation cp hold
      · obtain ⟨hle, hcurrent⟩ := h.waiting c kind name generation ref hold
        refine ⟨hle, fun heq => ⟨⟨ref, (hcurrent heq).resolve_right fun hfailed => ?_, ho⟩, rfl⟩⟩
        exact absurd (ho.symm.trans hfailed) (by simp)
    obtain ⟨hle, hready⟩ := hpast
    cases hl with
    | kept hgen _ hsettled hwaited hkept =>
        rw [hgen]
        refine ⟨hle, fun heq => ?_⟩
        obtain ⟨hr, hcp⟩ := hready heq
        obtain ⟨hr', hcp'⟩ := hkept hr
        exact ⟨hr', hcp.trans hcp'.symm⟩
    | wiped hgen _ hr hsettled =>
        rw [hgen]
        exact ⟨hle.trans (Nat.le_succ _), fun heq => by omega⟩
    | crashed budget heq =>
        subst heq
        exact absurd hc (by simp [fresh])

theorem Moves.not_loading {c : ℕ} {kind : CallKind} {name : JsString} {e : OrchestratorEvent ν}
    {phase phase' : CallPhase ν} (h : Moves opts s c kind name e phase phase')
    (generation : ℕ) (ref : LoadRef) :
    phase' ≠ .loading generation ref := by
  cases h <;> simp

theorem Moves.loaded_from {c : ℕ} {kind : CallKind} {name : JsString} {e : OrchestratorEvent ν}
    {phase : CallPhase ν} {generation cp : ℕ}
    (h : Moves opts s c kind name e phase (.loaded generation cp)) :
    ∃ ref, phase = .loading generation ref ∧ s.outcome ref = some true ∧ cp = s.checkpoint := by
  cases h with
  | loaded gen ref ho hkind => exact ⟨ref, rfl, ho, rfl⟩

variable [Arithmetic] in
/-- **Every step keeps what the calls have been given.** -/
theorem loading_step {e : OrchestratorEvent ν} (h : Loading s) (hstep : s.step opts e = some s') :
    Loading s' := by
  refine h.of_step (loadsOk_step h.ok hstep) (loadStep h.ok hstep)
    (fun c kind name generation ref hx => ?_) fun c kind name generation cp hx => ?_
  · cases call_step hstep c with
    | same h' => exact .inl (h' ▸ hx)
    | called _ _ _ hcount he hgen hphase h' =>
        rw [hx, Option.some.injEq, StepCall.mk.injEq] at h'
        rcases hphase with rfl | ⟨rfl, hloading⟩
        · exact absurd h'.2.2 (by simp)
        · obtain ⟨rfl, rfl⟩ := CallPhase.loading.inj h'.2.2
          exact .inr ⟨hgen.symm, hloading⟩
    | moved kind' name' phase phase' hc hmoves h' =>
        rw [hx, Option.some.injEq, StepCall.mk.injEq] at h'
        obtain ⟨rfl, rfl, rfl⟩ := h'
        exact absurd rfl (hmoves.not_loading generation ref)
    | began kind' name' cp he hc hget hname hbegun h' =>
        rw [hx, Option.some.injEq, StepCall.mk.injEq] at h'
        have hphase := h'.2.2
        split at hphase <;> exact absurd hphase (by simp)
    | stored kind' name' phase cp entry hc hwrites hwritten h' =>
        exact absurd (hx.symm.trans h') (by simp)
    | signalled kind' name' cp hc h' => exact absurd (hx.symm.trans h') (by simp)
    | crashed budget heq =>
        subst heq
        exact absurd hx (by simp [fresh])
  · cases call_step hstep c with
    | same h' => exact .inl (h' ▸ hx)
    | called _ _ _ hcount he hgen hphase h' =>
        rw [hx, Option.some.injEq, StepCall.mk.injEq] at h'
        rcases hphase with rfl | ⟨rfl, -⟩ <;> exact absurd h'.2.2 (by simp)
    | moved kind' name' phase phase' hc hmoves h' =>
        rw [hx, Option.some.injEq, StepCall.mk.injEq] at h'
        obtain ⟨rfl, rfl, rfl⟩ := h'
        obtain ⟨ref, rfl, ho, rfl⟩ := hmoves.loaded_from
        exact .inr ⟨ref, hc, ho, rfl⟩
    | began kind' name' cp he hc hget hname hbegun h' =>
        rw [hx, Option.some.injEq, StepCall.mk.injEq] at h'
        have hphase := h'.2.2
        split at hphase <;> exact absurd hphase (by simp)
    | stored kind' name' phase cp entry hc hwrites hwritten h' =>
        exact absurd (hx.symm.trans h') (by simp)
    | signalled kind' name' cp hc h' => exact absurd (hx.symm.trans h') (by simp)
    | crashed budget heq =>
        subst heq
        exact absurd hx (by simp [fresh])

end Kaiban.Orchestrator
