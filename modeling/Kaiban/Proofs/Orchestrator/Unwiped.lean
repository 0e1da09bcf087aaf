/-
A workflow that is not cleared.

Its instance stays in one generation and, once it has loaded, with one map, which every call
past its load holds.  Only one load of it succeeds.
-/
import Kaiban.Proofs.Orchestrator.BudgetStop

open JsString

namespace Kaiban.Orchestrator

variable {ν : Type} {opts : OrchestratorOptions ν} {s s' : Orchestrator ν}

/-- The workflow was not cleared: nothing is asked to wipe it, and every call past its load
holds the one map. -/
structure Unwiped (s : Orchestrator ν) : Prop where
  first : FirstLoad s
  jobs : ∀ job ∈ s.jobs, job.kind ≠ .wipe ∧ (∀ acted, job.phase ≠ .clearing acted) ∧
    job.phase ≠ .loading .reset
  waiting : ∀ job ∈ s.jobs.tail, job.phase = .queued
  generation : s.generation = 0
  cleared : s.cleared = false
  unreset : s.loading ≠ some .reset
  settled : ∀ l, (s.loads l).phase = .settled true → s.Ready
  given : ∀ c call cp, s.calls c = some call → call.phase.heldMap = some cp →
    s.Ready ∧ cp = s.checkpoint

theorem unwiped_fresh (budget : WorkflowBudget) (store : Option Checkpoint)
    (ledger : List Charge) : Unwiped (fresh budget store ledger : Orchestrator ν) where
  first := firstLoad_fresh budget store ledger
  jobs _ h := absurd h List.not_mem_nil
  waiting _ h := absurd h List.not_mem_nil
  generation := rfl
  cleared := rfl
  unreset h := absurd h (by simp [fresh])
  settled _ h := absurd h (by simp [fresh])
  given _ _ _ h := absurd h (by simp [fresh])

/-- A step of it is no reset. -/
theorem Unwiped.not_resets (h : Unwiped s) (e : OrchestratorEvent ν) : ¬ s.Resets e := by
  rintro ⟨-, job, rest, hj, -, hkind⟩
  exact (h.jobs job (hj ▸ List.mem_cons_self)).1 hkind

section

variable [Arithmetic]

theorem Unwiped.jobs_step {e : OrchestratorEvent ν} (h : Unwiped s) (hclear : e ≠ .clear)
    (hstep : s.step opts e = some s') : ∀ job ∈ s'.jobs, job.kind ≠ .wipe ∧
      (∀ acted, job.phase ≠ .clearing acted) ∧ job.phase ≠ .loading .reset := by
  -- The head goes on, the rest waits.
  have hhead : ∀ (job : Job) (rest : List Job) (phase : JobPhase), s.jobs = job :: rest →
      s'.jobs = { job with phase := phase } :: rest → (∀ acted, phase ≠ .clearing acted) →
      phase ≠ .loading .reset → ∀ x ∈ s'.jobs, x.kind ≠ .wipe ∧
        (∀ acted, x.phase ≠ .clearing acted) ∧ x.phase ≠ .loading .reset := by
    intro job rest phase hj hjobs hclearing hloading x hx
    rw [hjobs] at hx
    rcases List.mem_cons.mp hx with rfl | hx
    · exact ⟨(h.jobs job (hj ▸ List.mem_cons_self)).1, hclearing, hloading⟩
    · exact h.jobs x (hj ▸ List.mem_cons_of_mem _ hx)
  cases chain_step hstep with
  | quiet _ heq =>
      have hjobs : s'.jobs = s.jobs := congrArg Chain.jobs heq
      rw [hjobs]
      exact h.jobs
  | queued _ kind _ hwipe heq =>
      intro job hmem
      have hjobs : s'.jobs = s.jobs ++ [⟨s.jobCount, kind, .queued⟩] := congrArg Chain.jobs heq
      rw [hjobs] at hmem
      rcases List.mem_append.mp hmem with hold | hnew
      · exact h.jobs job hold
      · rw [List.mem_singleton.mp hnew]
        exact ⟨fun hkind => hclear (hwipe hkind), fun _ => by simp, by simp⟩
  | loading job rest owner hj hp hkind heq =>
      refine hhead job rest _ hj (congrArg Chain.jobs heq) (by simp) fun hreset => ?_
      have hnext : s.ensureLoaded.2 = .reset := JobPhase.loading.inj hreset
      rcases s.ensureLoaded_cases with ⟨ref, href, hs⟩ | ⟨-, hs⟩
      · rw [hs] at hnext
        exact h.unreset (href.trans (congrArg some hnext))
      · rw [hs] at hnext
        exact absurd hnext (by simp)
  | clearing job rest hj hp hkind heq =>
      exact absurd hkind (h.jobs job (hj ▸ List.mem_cons_self)).1
  | writing job rest ref hj hp ho hkept heq =>
      exact hhead job rest _ hj (congrArg Chain.jobs heq) (by simp) (by simp)
  | saved job rest snap hj hp heq =>
      exact hhead job rest _ hj (congrArg Chain.jobs heq) (by simp) (by simp)
  | wiped job rest hj hp heq =>
      exact absurd hp ((h.jobs job (hj ▸ List.mem_cons_self)).2.1 false)
  | ended _ he job rest hj hp heq =>
      intro x hx
      have hjobs : s'.jobs = rest := congrArg Chain.jobs heq
      exact h.jobs x (hj ▸ List.mem_cons_of_mem _ (hjobs ▸ hx))
  | crashed budget heq =>
      subst heq
      exact fun _ hx => absurd hx List.not_mem_nil

/-- Only the head of the queue goes on. -/
theorem Unwiped.waiting_step {e : OrchestratorEvent ν} (h : Unwiped s)
    (hstep : s.step opts e = some s') : ∀ job ∈ s'.jobs.tail, job.phase = .queued := by
  have hhead : ∀ (job job' : Job) (rest : List Job), s.jobs = job :: rest →
      s'.jobs = job' :: rest → ∀ x ∈ s'.jobs.tail, x.phase = .queued := by
    intro job job' rest hj hjobs x hx
    rw [hjobs] at hx
    have hold := h.waiting x
    rw [hj] at hold
    exact hold hx
  cases chain_step hstep with
  | quiet _ heq =>
      have hjobs : s'.jobs = s.jobs := congrArg Chain.jobs heq
      rw [hjobs]
      exact h.waiting
  | queued _ kind _ _ heq =>
      intro x hx
      have hjobs : s'.jobs = s.jobs ++ [⟨s.jobCount, kind, .queued⟩] := congrArg Chain.jobs heq
      rw [hjobs] at hx
      cases hj : s.jobs with
      | nil =>
          rw [hj] at hx
          exact absurd hx List.not_mem_nil
      | cons job rest =>
          have hold := h.waiting x
          rw [hj] at hx hold
          rcases List.mem_append.mp hx with hx | hx
          · exact hold hx
          · rw [List.mem_singleton.mp hx]
  | loading job rest _ hj _ _ heq => exact hhead job _ rest hj (congrArg Chain.jobs heq)
  | clearing job rest hj _ _ heq => exact hhead job _ rest hj (congrArg Chain.jobs heq)
  | writing job rest _ hj _ _ _ heq => exact hhead job _ rest hj (congrArg Chain.jobs heq)
  | saved job rest _ hj _ heq => exact hhead job _ rest hj (congrArg Chain.jobs heq)
  | wiped job rest hj _ heq => exact hhead job _ rest hj (congrArg Chain.jobs heq)
  | ended _ he job rest hj hp heq =>
      intro x hx
      have hjobs : s'.jobs = rest := congrArg Chain.jobs heq
      have hold := h.waiting x
      rw [hj] at hold
      exact hold (List.mem_of_mem_tail (hjobs ▸ hx))
  | crashed budget heq =>
      subst heq
      exact fun _ hx => absurd hx List.not_mem_nil

/-- What a step leaves of the load: what was ready stays so, or a new instance begins. -/
theorem Unwiped.kept {e : OrchestratorEvent ν} (h : Unwiped s) (hstep : s.step opts e = some s') :
    (∃ budget, s' = fresh budget s.store s.storeLedger) ∨
      ¬ Crashes e ∧ (s.Ready → s'.Ready ∧ s'.checkpoint = s.checkpoint) := by
  by_cases hon : Crashes e
  · cases e with
    | crash budget => exact .inl ⟨budget, (Option.some.inj hstep).symm⟩
    | _ => exact absurd hon id
  · cases loadStep h.first.loading.ok hstep with
    | kept _ _ _ _ hready => exact .inr ⟨hon, hready⟩
    | wiped hgen _ _ _ =>
        have hsame := generation_step ⟨h.not_resets e, hon⟩ hstep
        exact absurd (hgen.symm.trans hsame) (Nat.succ_ne_self _)
    | crashed budget heq => exact .inl ⟨budget, heq⟩

end

/-- A load that is under way is the current one. -/
theorem Unwiped.current (h : Unwiped s) {l : ℕ} (hl : l < s.loadCount)
    (hopen : ∀ ok, (s.loads l).phase ≠ .settled ok) : s.loading = some (.load l) := by
  refine h.first.loading.ok.current l hl ?_ hopen
  have hle := h.first.loading.ok.generations l hl
  have h0 := h.generation
  omega

/-- Nothing has loaded while a load is under way. -/
theorem Unwiped.not_ready (h : Unwiped s) {l : ℕ} (hl : l < s.loadCount)
    (hopen : ∀ ok, (s.loads l).phase ≠ .settled ok) : ¬ s.Ready :=
  fun hready => hopen true (hready.settled (h.current hl hopen))

/-- The load of an instance that is not ready fails. -/
theorem Unwiped.failed {t : Orchestrator ν} (h : Unwiped s) {l : ℕ} (hl : l < s.loadCount)
    (hopen : ∀ ok, (s.loads l).phase ≠ .settled ok) (hloads : t.loads = s.loads)
    (hloading : t.loading = s.loading) (heq : s'.loadView = (t.loadFailed l).loadView) :
    s'.loading ≠ some .reset ∧ ∀ x, (s'.loads x).phase ≠ .settled true := by
  simp only [loadView, LoadView.mk.injEq] at heq
  rcases t.loadFailed_cases l with ⟨-, hs⟩ | ⟨hother, -⟩
  · rw [hs] at heq
    refine ⟨by simp [heq.2.2.1], fun x hx => ?_⟩
    rw [heq.1] at hx
    by_cases hxl : x = l
    · rw [hxl] at hx
      exact absurd ((congrArg Load.phase (if_pos rfl)).symm.trans hx) (by simp)
    · have hsame : (t.setLoad l (.settled false)).loads x = t.loads x := if_neg hxl
      have hx' : ((t.setLoad l (.settled false)).loads x).phase = .settled true := hx
      rw [hsame, hloads] at hx'
      exact h.not_ready hl hopen (h.settled x hx')
  · exact absurd (hloading.trans (h.current hl hopen)) hother

section

variable [Arithmetic]

theorem Unwiped.load_step {e : OrchestratorEvent ν} (h : Unwiped s) (hon : ¬ Crashes e)
    (hkept : s.Ready → s'.Ready) (hstep : s.step opts e = some s') :
    s'.loading ≠ some .reset ∧ ∀ l, (s'.loads l).phase = .settled true → s'.Ready := by
  have hset : ∀ (l : ℕ) (phase : LoadPhase), phase ≠ .settled true →
      s'.loads = (s.setLoad l phase).loads → s'.loading = s.loading →
      s'.loading ≠ some .reset ∧ ∀ x, (s'.loads x).phase = .settled true → s'.Ready := by
    intro l phase hphase hloads hloading
    refine ⟨hloading ▸ h.unreset, fun x hx => hkept ?_⟩
    rw [hloads] at hx
    have hx' : (if x = l then (⟨(s.loads x).generation, phase⟩ : Load)
      else s.loads x).phase = .settled true := hx
    by_cases hxl : x = l
    · rw [if_pos hxl] at hx'
      exact absurd hx' hphase
    · rw [if_neg hxl] at hx'
      exact h.settled x hx'
  cases loads_step hstep with
  | quiet _ heq =>
      simp only [loadView, LoadView.mk.injEq] at heq
      obtain ⟨hloads, -, hloading, -, -⟩ := heq
      rw [hloads, hloading]
      exact ⟨h.unreset, fun l hl => hkept (h.settled l hl)⟩
  | asked _ heq =>
      rcases s.ensureLoaded_cases with ⟨ref, -, hs⟩ | ⟨-, hs⟩ <;> rw [hs] at heq <;>
        simp only [loadView, LoadView.mk.injEq] at heq <;>
        obtain ⟨hloads, -, hloading, -, -⟩ := heq
      · rw [hloads, hloading]
        exact ⟨h.unreset, fun l hl => hkept (h.settled l hl)⟩
      · refine ⟨by simp [hloading], fun l hl => hkept (h.settled l ?_)⟩
        rw [hloads] at hl
        dsimp only at hl
        by_cases hnew : l = s.loadCount
        · rw [if_pos hnew] at hl
          exact absurd hl (by simp)
        · rwa [if_neg hnew] at hl
  | read l hl hp heq =>
      simp only [loadView, LoadView.mk.injEq] at heq
      exact hset l _ (by simp) heq.1 heq.2.2.1
  | discarded l record ledger hp hgen heq =>
      have hle := h.first.loading.ok.generations l (h.first.loading.ok.asked (by simp [hp]))
      have h0 := h.generation
      exact absurd (by omega) hgen
  | restored l record ledger hp hgen heq =>
      have hcurrent :=
        h.current (l := l) (h.first.loading.ok.asked (by simp [hp])) (by simp [hp])
      simp only [loadView, LoadView.mk.injEq] at heq
      obtain ⟨hloads, -, hloading, -, -⟩ := heq
      have hload : s'.loading = some (.load l) := hloading.trans hcurrent
      refine ⟨by simp [hload], fun _ _ => ⟨.load l, hload, ?_⟩⟩
      rw [outcome_of_loads (s := (s.withSteps record).setLoad l (.settled true)) hloads]
      exact outcome_settled _ l true
  | broken l record ledger hp hgen heq =>
      obtain ⟨hreset, hnone⟩ := h.failed (t := s.withSteps record)
        (h.first.loading.ok.asked (by simp [hp])) (by simp [hp]) rfl rfl heq
      exact ⟨hreset, fun x hx => absurd hx (hnone x)⟩
  | threw l hl hp heq =>
      obtain ⟨hreset, hnone⟩ := h.failed (t := s) hl (by simp [hp]) rfl rfl heq
      exact ⟨hreset, fun x hx => absurd hx (hnone x)⟩
  | wiped heq =>
      have hgen : s'.generation = s.generation + 1 := congrArg LoadView.generation heq
      have hsame := generation_step ⟨h.not_resets _, hon⟩ hstep
      exact absurd (hgen.symm.trans hsame) (Nat.succ_ne_self _)
  | crashed _ _ => exact absurd trivial hon

/-- A call past its load holds the map of the instance. -/
theorem Unwiped.given_step {e : OrchestratorEvent ν} (h : Unwiped s)
    (hkept : s.Ready → s'.Ready ∧ s'.checkpoint = s.checkpoint)
    (hstep : s.step opts e = some s') (c : ℕ) (call : StepCall ν) (cp : ℕ)
    (hc : s'.calls c = some call) (hcp : call.phase.heldMap = some cp) :
    s'.Ready ∧ cp = s'.checkpoint := by
  have hmap : s.Ready ∧ cp = s.checkpoint → s'.Ready ∧ cp = s'.checkpoint := by
    rintro ⟨hready, rfl⟩
    obtain ⟨hready', hsame⟩ := hkept hready
    exact ⟨hready', hsame.symm⟩
  cases call_step hstep c with
  | same h' => exact hmap (h.given c call cp (h' ▸ hc) hcp)
  | called _ _ _ _ _ _ hphase h' =>
      obtain rfl := Option.some.inj (hc.symm.trans h')
      rcases hphase with rfl | ⟨rfl, -⟩ <;> exact absurd hcp (by simp [CallPhase.heldMap])
  | moved kind name phase phase' hold hmoves h' =>
      obtain rfl := Option.some.inj (hc.symm.trans h')
      cases hmoves with
      | loaded generation ref ho hkind =>
          obtain rfl := Option.some.inj hcp
          obtain ⟨hle, hcurrent⟩ := h.first.loading.waiting c _ _ generation ref hold
          have h0 := h.generation
          rcases hcurrent (by omega) with hthis | hfailed
          · exact hmap ⟨⟨ref, hthis, ho⟩, rfl⟩
          · exact absurd (ho.symm.trans hfailed) (by simp)
      | checked => exact hmap (h.given c _ cp hold hcp)
      | waits => exact hmap (h.given c _ cp hold hcp)
      | produced => exact hmap (h.given c _ cp hold hcp)
      | _ => exact absurd hcp (by simp [CallPhase.heldMap])
  | began kind name cp' he hold hget hname hbegun h' =>
      obtain rfl := Option.some.inj (hc.symm.trans h')
      have hcp' : cp' = cp := by
        dsimp only at hcp
        split at hcp <;> exact Option.some.inj hcp
      exact hmap (h.given c _ cp hold (hcp' ▸ rfl))
  | stored kind name phase cp' entry hold hwrites hwritten h' =>
      obtain rfl := Option.some.inj (hc.symm.trans h')
      exact absurd hcp (by simp [CallPhase.heldMap])
  | signalled kind name cp' hold h' =>
      obtain rfl := Option.some.inj (hc.symm.trans h')
      exact absurd hcp (by simp [CallPhase.heldMap])
  | crashed budget heq =>
      subst heq
      exact absurd hc (by simp [fresh])

/-- **A workflow that is not cleared stays in its one generation.** -/
theorem unwiped_step {e : OrchestratorEvent ν} (h : Unwiped s) (hclear : e ≠ .clear)
    (hstep : s.step opts e = some s') : Unwiped s' := by
  rcases h.kept hstep with ⟨budget, rfl⟩ | ⟨hon, hkept⟩
  · exact unwiped_fresh budget s.store s.storeLedger
  · obtain ⟨hreset, hsettled⟩ := h.load_step hon (fun hready => (hkept hready).1) hstep
    refine ⟨firstLoad_step h.first hstep, h.jobs_step hclear hstep, h.waiting_step hstep,
      (generation_step ⟨h.not_resets e, hon⟩ hstep).trans h.generation, ?_, hreset, hsettled,
      h.given_step hkept hstep⟩
    rcases cleared_step hon hstep with hsame | ⟨hresets, -⟩
    · exact hsame.trans h.cleared
    · exact absurd hresets (h.not_resets e)

/-- What is restored is restored once. -/
theorem Unwiped.restoredRecord_step {e : OrchestratorEvent ν} (h : Unwiped s) (hon : ¬ Crashes e)
    (hready : s.Ready) (hstep : s.step opts e = some s') :
    s'.restoredRecord = s.restoredRecord ∧ s'.restored = s.restored ∧
      s'.inherited = s.inherited := by
  have hsame : ∀ t : Orchestrator ν, s'.control = t.control → t.restoredRecord = s.restoredRecord →
      t.restored = s.restored → t.inherited = s.inherited →
      s'.restoredRecord = s.restoredRecord ∧ s'.restored = s.restored ∧
        s'.inherited = s.inherited := by
    intro t heq h1 h2 h3
    exact ⟨(congrArg Control.restoredRecord heq).trans h1, (congrArg Control.restored heq).trans h2,
      (congrArg Control.inherited heq).trans h3⟩
  cases control_step hstep with
  | quiet _ heq => exact hsame s heq rfl rfl rfl
  | accounted _ step amount heq =>
      rcases heq with heq | ⟨-, heq⟩
      · obtain ⟨stop, reports, hs⟩ := (s.charged step amount).checkStop_frame
        rw [hs] at heq
        exact hsame _ heq rfl rfl rfl
      · exact hsame _ heq rfl rfl rfl
  | unaccounted _ _ _ _ _ _ _ heq => exact hsame _ heq rfl rfl rfl
  | restored l record ledger saved hp hgen hparse _ =>
      exact absurd hready (ready_restored h.first.loading.ok hp hgen hparse hstep).1
  | began _ _ _ _ _ _ _ heq => exact hsame _ heq rfl rfl rfl
  | signalled heq => exact hsame _ heq rfl rfl rfl
  | wiped heq => exact absurd (resets_of_wiped hstep heq) (h.not_resets _)
  | crashed _ _ => exact absurd trivial hon

end

/-- An instance has loaded when a load of it has succeeded. -/
theorem Unwiped.loaded (h : Unwiped s) (hready : s.Ready) :
    ∃ l, (s.loads l).phase = .settled true := by
  obtain ⟨ref, href, ho⟩ := hready
  cases ref with
  | reset => exact absurd href h.unreset
  | load l => exact ⟨l, outcome_load.mp ho⟩

variable [Arithmetic] in
/-- A load that is restored is what makes an instance ready. -/
theorem Unwiped.becomes_ready {e : OrchestratorEvent ν} (h : Unwiped s) (h' : Unwiped s')
    (hnot : ¬ s.Ready) (hready : s'.Ready) (hstep : s.step opts e = some s') :
    ∃ l record ledger saved, (s.loads l).phase = .read record ledger ∧
      parsePersistedSpend (spendText record) = some saved ∧
      s' = ((s.withSteps record).restore (record.getD .empty) ledger saved).setLoad l
        (.settled true) := by
  obtain ⟨x, hx⟩ := h'.loaded hready
  have hset : ∀ (l : ℕ) (phase : LoadPhase), phase ≠ .settled true →
      s'.loads = (s.setLoad l phase).loads → False := by
    intro l phase hphase hloads
    rw [hloads] at hx
    have hx' : (if x = l then (⟨(s.loads x).generation, phase⟩ : Load)
      else s.loads x).phase = .settled true := hx
    by_cases hxl : x = l
    · rw [if_pos hxl] at hx'
      exact hphase hx'
    · rw [if_neg hxl] at hx'
      exact hnot (h.settled x hx')
  cases loads_step hstep with
  | quiet _ heq =>
      have hloads : s'.loads = s.loads := congrArg LoadView.loads heq
      rw [hloads] at hx
      exact absurd (h.settled x hx) hnot
  | asked _ heq =>
      have hloads : s'.loads = s.ensureLoaded.1.loads := congrArg LoadView.loads heq
      rw [hloads] at hx
      rcases s.ensureLoaded_cases with ⟨ref, -, hs⟩ | ⟨-, hs⟩ <;> rw [hs] at hx
      · exact absurd (h.settled x hx) hnot
      · dsimp only at hx
        by_cases hnew : x = s.loadCount
        · rw [if_pos hnew] at hx
          exact absurd hx (by simp)
        · rw [if_neg hnew] at hx
          exact absurd (h.settled x hx) hnot
  | read l hl hp heq => exact (hset l _ (by simp) (congrArg LoadView.loads heq)).elim
  | discarded l record ledger hp hgen heq =>
      have hle := h.first.loading.ok.generations l (h.first.loading.ok.asked (by simp [hp]))
      have h0 := h.generation
      exact absurd (by omega) hgen
  | restored l record ledger hp hgen heq =>
      cases transition hstep with
      | loadReturned _ record' ledger' hp' =>
          obtain ⟨rfl, rfl⟩ := LoadPhase.read.inj (hp.symm.trans hp')
          rcases s.loadReturned_cases l record ledger with ⟨hno, -⟩ | ⟨-, -, hs⟩ |
            ⟨saved, -, hparse, hs⟩
          · exact absurd hgen hno
          · have hview : (s.loadReturned l record ledger).loadView
                = ((s.withSteps record).loadFailed l).loadView := by rw [hs]
            obtain ⟨-, hnone⟩ := h.failed (t := s.withSteps record) (l := l)
              (h.first.loading.ok.asked (by simp [hp])) (by simp [hp]) rfl rfl hview
            exact absurd hx (hnone x)
          · exact ⟨l, record, ledger, saved, hp, hparse, hs⟩
  | broken l record ledger hp hgen heq =>
      obtain ⟨-, hnone⟩ := h.failed (t := s.withSteps record) (l := l)
        (h.first.loading.ok.asked (by simp [hp])) (by simp [hp]) rfl rfl heq
      exact absurd hx (hnone x)
  | threw l hl hp heq =>
      obtain ⟨-, hnone⟩ := h.failed (t := s) hl (by simp [hp]) rfl rfl heq
      exact absurd hx (hnone x)
  | wiped heq =>
      have hloading : s'.loading = some .reset := congrArg LoadView.loading heq
      exact absurd hloading h'.unreset
  | crashed budget heq =>
      subst heq
      exact absurd hx (by simp [fresh])

theorem not_ready_fresh (budget : WorkflowBudget) (store : Option Checkpoint)
    (ledger : List Charge) : ¬ (fresh budget store ledger : Orchestrator ν).Ready := by
  rintro ⟨ref, href, -⟩
  exact absurd href (by simp [fresh])

/-- The head job waits for a load of its own instance. -/
theorem Unwiped.job_ready (h : Unwiped s) {job : Job} {rest : List Job} {ref : LoadRef}
    (hj : s.jobs = job :: rest) (hp : job.phase = .loading ref)
    (ho : s.outcome ref = some true) : s.Ready := by
  cases ref with
  | reset => exact absurd hp (h.jobs job (hj ▸ List.mem_cons_self)).2.2
  | load l => exact h.settled l (outcome_load.mp ho)

end Kaiban.Orchestrator
