/-
Every record that is saved is kept and paid for.

The instance carries the charges behind the spend it restored, and the store those behind the
record in it.  A step is written when it is charged, or has the result of one that was, so
whatever is in memory, on its way to the store or in it has its charge there too.
-/
import Kaiban.Proofs.Orchestrator.Durable
import Kaiban.Proofs.Orchestrator.Records

open JsString

namespace Kaiban.Orchestrator

attribute [local instance] Arithmetic.exact

variable {ν : Type} {opts : OrchestratorOptions ν} {s s' : Orchestrator ν}

/-- What is in the store, in memory and on its way is paid for. -/
structure Ledgered (opts : OrchestratorOptions ν) (s : Orchestrator ν) : Prop where
  store : PaidUp opts s.store s.storeLedger
  restored : s.restored = spent s.inherited
  memory : s.Ready → ∀ name entry, s.steps.get name = some entry →
    PaidFor opts (s.inherited ++ s.charges) name entry
  writing : ∀ job ∈ s.jobs, ∀ snap acted, job.phase = .writing snap acted →
    PaidUp opts (some snap.record) snap.ledger

theorem ledgered_fresh {budget : WorkflowBudget} {store : Option Checkpoint}
    {ledger : List Charge} (h : PaidUp opts store ledger) :
    Ledgered opts (fresh budget store ledger) where
  store := h
  restored := rfl
  memory hready := absurd hready (not_ready_fresh budget store ledger)
  writing _ hjob := absurd hjob List.not_mem_nil

/-- What is taken now is paid for. -/
theorem Ledgered.snapshot (h : Ledgered opts s) (ht : Tallied s) (hready : s.Ready) :
    PaidUp opts (some s.snapshot.record) (s.inherited ++ s.charges) := by
  refine ⟨⟨s.stop.map WorkflowStop.detail, ?_⟩, fun name entry hname hget => ?_⟩
  · rw [spendText_snapshot, spent_append, ← h.restored, ht.totals]
    rfl
  · refine h.memory hready name entry ?_
    rw [← hget]
    exact (OrderedMap.get_set_ne _ _ hname).symm

/-- A step that is written is charged with the event that writes it, or found among those
that were. -/
theorem Ledgered.wrote {c : ℕ} {kind : CallKind} {name : JsString} {phase : CallPhase ν}
    {entry : StepCheckpoint} {e : OrchestratorEvent ν} (h : Ledgered opts s) (hready : s.Ready)
    (hc : s.calls c = some ⟨kind, name, phase⟩)
    (hwrites : Writes opts s c name e phase s.checkpoint entry) :
    PaidFor opts (s.inherited ++ (s.charges ++ obtained opts s e)) name entry := by
  cases hwrites with
  | found _ taskId result hfind =>
      obtain ⟨other, hother⟩ := get_of_findByTaskId hfind
      refine .reused name other taskId result ((h.memory hready other _ hother).mono ?_)
      rw [← List.append_assoc]
      exact List.subset_append_left _ _
  | waited _ taskId result => exact .routed name taskId result (by simp [obtained, hc])
  | produced _ value result hv => exact .produced name value result hv (by simp [obtained, hc])

theorem Ledgered.memory_step {e : OrchestratorEvent ν} (h : Ledgered opts s) (hu : Unwiped s)
    (hu' : Unwiped s') (hstored : Stored s) (hon : ¬ Crashes e)
    (hkept : s.Ready → s'.Ready ∧ s'.checkpoint = s.checkpoint)
    (hstep : s.step opts e = some s') (hready' : s'.Ready) (name : JsString)
    (entry : StepCheckpoint) (hget : s'.steps.get name = some entry) :
    PaidFor opts (s'.inherited ++ s'.charges) name entry := by
  by_cases hready : s.Ready
  · have hcheckpoint := (hkept hready).2
    obtain ⟨-, -, hinherited⟩ := hu.restoredRecord_step hon hready hstep
    rw [hinherited, hu.charges_step hon hstep]
    have hold (hold : s.steps.get name = some entry) :
        PaidFor opts (s.inherited ++ (s.charges ++ obtained opts s e)) name entry := by
      refine (h.memory hready name entry hold).mono ?_
      rw [← List.append_assoc]
      exact List.subset_append_left _ _
    unfold Orchestrator.steps at hget
    rw [hcheckpoint] at hget
    cases maps_step hstep with
    | kept hmaps _ =>
        rw [hmaps _ le_rfl] at hget
        exact hold hget
    | wrote c kind written phase cp entry' hc hwrites hmap _ _ _ =>
        obtain ⟨-, rfl⟩ := hu.given c _ cp hc (CallPhase.heldMap_of_workMap hwrites.workMap)
        rw [hmap] at hget
        by_cases hname : name = written
        · subst hname
          rw [OrderedMap.get_set_self] at hget
          rw [← Option.some.inj hget]
          exact h.wrote hready hc hwrites
        · rw [OrderedMap.get_set_ne _ _ hname] at hget
          exact hold hget
    | crashed budget heq => exact absurd hready' (heq ▸ not_ready_fresh _ _ _)
  · obtain ⟨l, record, ledger, saved, hp, -, hs⟩ := hu.becomes_ready hu' hready hready' hstep
    obtain ⟨hrecord, hledger⟩ := hstored.reads hready l record ledger hp
    obtain ⟨hsteps, hinherited⟩ :
        s'.steps = (record.getD .empty).erase spendEntry ∧ s'.inherited = ledger := by
      obtain ⟨stop, reports, hr⟩ :=
        (s.withSteps record).restore_frame (record.getD .empty) ledger saved
      rw [hs, hr]
      exact ⟨if_pos rfl, rfl⟩
    rw [hsteps] at hget
    have hname : name ≠ spendEntry := by
      rintro rfl
      rw [OrderedMap.get_erase_self] at hget
      exact absurd hget (by simp)
    rw [OrderedMap.get_erase_ne _ hname, hrecord] at hget
    refine (h.store.2 name entry hname hget).mono ?_
    rw [hinherited, hledger]
    exact List.subset_append_left _ _

theorem Ledgered.restored_step {e : OrchestratorEvent ν} (h : Ledgered opts s) (hu : Unwiped s)
    (hstored : Stored s) (hon : ¬ Crashes e) (hstep : s.step opts e = some s') :
    s'.restored = spent s'.inherited := by
  have hsame : ∀ t : Orchestrator ν, s'.control = t.control → t.restored = s.restored →
      t.inherited = s.inherited → s'.restored = spent s'.inherited := by
    intro t heq hrestored hinherited
    have h1 : s'.restored = t.restored := congrArg Control.restored heq
    have h2 : s'.inherited = t.inherited := congrArg Control.inherited heq
    rw [h1, h2, hrestored, hinherited, h.restored]
  cases control_step hstep with
  | quiet _ heq => exact hsame s heq rfl rfl
  | accounted _ step amount heq =>
      rcases heq with heq | ⟨-, heq⟩
      · obtain ⟨stop, reports, hs⟩ := (s.charged step amount).checkStop_frame
        rw [hs] at heq
        exact hsame _ heq rfl rfl
      · exact hsame _ heq rfl rfl
  | unaccounted _ _ _ _ _ _ _ heq => exact hsame _ heq rfl rfl
  | restored l record ledger saved hp hgen hparse heq =>
      obtain ⟨hnot, -, -⟩ := ready_restored hu.first.loading.ok hp hgen hparse hstep
      obtain ⟨hrecord, hledger⟩ := hstored.reads hnot l record ledger hp
      obtain ⟨stop, hspend⟩ := h.store.1
      rw [← hrecord, ← hledger, hparse] at hspend
      obtain ⟨stop', reports, hr⟩ := s.restore_frame (record.getD .empty) ledger saved
      rw [hr] at heq
      have h1 : s'.restored = saved.totals := congrArg Control.restored heq
      have h2 : s'.inherited = ledger := congrArg Control.inherited heq
      rw [h1, h2, Option.some.inj hspend]
  | began _ _ _ _ _ _ _ heq => exact hsame _ heq rfl rfl
  | signalled heq => exact hsame _ heq rfl rfl
  | wiped heq => exact absurd (resets_of_wiped hstep heq) (hu.not_resets _)
  | crashed _ _ => exact absurd trivial hon

/-- What is on its way to the store was taken when it was paid for. -/
theorem Ledgered.chain_step {e : OrchestratorEvent ν} (h : Ledgered opts s) (ht : Tallied s)
    (hu : Unwiped s) (hon : ¬ Crashes e) (hstep : s.step opts e = some s') :
    PaidUp opts s'.store s'.storeLedger ∧ ∀ job ∈ s'.jobs, ∀ snap acted,
      job.phase = .writing snap acted → PaidUp opts (some snap.record) snap.ledger := by
  have hquiet : s'.store = s.store → s'.storeLedger = s.storeLedger →
      (∀ job ∈ s'.jobs, (∃ snap acted, job.phase = .writing snap acted) → job ∈ s.jobs) →
      PaidUp opts s'.store s'.storeLedger ∧ ∀ job ∈ s'.jobs, ∀ snap acted,
        job.phase = .writing snap acted → PaidUp opts (some snap.record) snap.ledger := by
    intro h1 h2 hjobs
    rw [h1, h2]
    exact ⟨h.store, fun job hmem snap acted hphase =>
      h.writing job (hjobs job hmem ⟨snap, acted, hphase⟩) snap acted hphase⟩
  have hrest : ∀ (job : Job) (rest : List Job), s.jobs = job :: rest → ∀ x ∈ rest, x ∈ s.jobs :=
    fun job rest hj x hx => hj ▸ List.mem_cons_of_mem _ hx
  cases Orchestrator.chain_step hstep with
  | quiet _ heq =>
      refine hquiet (congrArg Chain.store heq) (congrArg Chain.storeLedger heq) fun job hmem _ => ?_
      have hjobs : s'.jobs = s.jobs := congrArg Chain.jobs heq
      exact hjobs ▸ hmem
  | queued _ kind _ _ heq =>
      refine hquiet (congrArg Chain.store heq) (congrArg Chain.storeLedger heq)
        fun job hmem hw => ?_
      have hjobs : s'.jobs = s.jobs ++ [⟨s.jobCount, kind, .queued⟩] := congrArg Chain.jobs heq
      rw [hjobs] at hmem
      rcases List.mem_append.mp hmem with hold | hnew
      · exact hold
      · obtain ⟨snap, acted, hphase⟩ := hw
        rw [List.mem_singleton.mp hnew] at hphase
        exact absurd hphase (by simp)
  | loading job rest owner hj hp hkind heq =>
      refine hquiet (congrArg Chain.store heq) (congrArg Chain.storeLedger heq) fun x hmem hw => ?_
      have hjobs : s'.jobs = { job with phase := .loading s.ensureLoaded.2 } :: rest :=
        congrArg Chain.jobs heq
      rw [hjobs] at hmem
      rcases List.mem_cons.mp hmem with rfl | hx
      · obtain ⟨snap, acted, hphase⟩ := hw
        exact absurd hphase (by simp)
      · exact hrest job rest hj x hx
  | clearing job rest hj hp hkind heq =>
      exact absurd hkind (hu.jobs job (hj ▸ List.mem_cons_self)).1
  | writing job rest ref hj hp ho hkept heq =>
      have h1 : s'.store = s.store := congrArg Chain.store heq
      have h2 : s'.storeLedger = s.storeLedger := congrArg Chain.storeLedger heq
      have hjobs : s'.jobs = { job with phase := .writing s.snapshot false } :: rest :=
        congrArg Chain.jobs heq
      rw [h1, h2]
      refine ⟨h.store, fun x hx snap acted hphase => ?_⟩
      rw [hjobs] at hx
      rcases List.mem_cons.mp hx with rfl | hx
      · obtain ⟨rfl, -⟩ := JobPhase.writing.inj hphase
        exact h.snapshot ht (hu.job_ready hj hp ho)
      · exact h.writing x (hrest job rest hj x hx) snap acted hphase
  | saved job rest snap hj hp heq =>
      have h1 : s'.store = some snap.record := congrArg Chain.store heq
      have h2 : s'.storeLedger = snap.ledger := congrArg Chain.storeLedger heq
      have hjobs : s'.jobs = { job with phase := .writing snap true } :: rest :=
        congrArg Chain.jobs heq
      have hpaid := h.writing job (hj ▸ List.mem_cons_self) snap false hp
      rw [h1, h2]
      refine ⟨hpaid, fun x hx snap' acted hphase => ?_⟩
      rw [hjobs] at hx
      rcases List.mem_cons.mp hx with rfl | hx
      · obtain ⟨rfl, -⟩ := JobPhase.writing.inj hphase
        exact hpaid
      · exact h.writing x (hrest job rest hj x hx) snap' acted hphase
  | wiped job rest hj hp heq =>
      exact absurd hp ((hu.jobs job (hj ▸ List.mem_cons_self)).2.1 false)
  | ended _ he job rest hj hp heq =>
      refine hquiet (congrArg Chain.store heq) (congrArg Chain.storeLedger heq) fun x hmem _ => ?_
      have hjobs : s'.jobs = rest := congrArg Chain.jobs heq
      exact hrest job rest hj x (hjobs ▸ hmem)
  | crashed _ _ => exact absurd trivial hon

/-- **Every step keeps what is saved paid for.** -/
theorem ledgered_step {e : OrchestratorEvent ν} (h : Ledgered opts s) (ht : Tallied s)
    (hu : Unwiped s) (hstored : Stored s) (hclear : e ≠ .clear)
    (hstep : s.step opts e = some s') : Ledgered opts s' := by
  rcases hu.kept hstep with ⟨budget, rfl⟩ | ⟨hon, hkept⟩
  · exact ledgered_fresh h.store
  obtain ⟨hstore, hwriting⟩ := h.chain_step ht hu hon hstep
  exact ⟨hstore, h.restored_step hu hstored hon hstep,
    h.memory_step hu (unwiped_step hu hclear hstep) hstored hon hkept hstep, hwriting⟩

/-! ### What is saved is kept -/

/-- A step that was there is there, as it was or as it was written since. -/
theorem get_applied_later {n : ℕ} {name : JsString} {entry : StepCheckpoint}
    (h : (s.applied n).get name = some entry) :
    (s.applied s.writes.length).get name = some entry ∨
      ∃ w ∈ s.writes, w.name = name ∧ (s.applied s.writes.length).get name = some w.entry := by
  have hsplit : s.applied s.writes.length = applyWrites (s.applied n) (s.writes.drop n) := by
    rw [applied_all]
    unfold applied
    rw [← applyWrites_append, List.take_append_drop]
  have hsome : ((s.applied s.writes.length).get name).isSome = true := by
    rw [hsplit]
    exact get_applyWrites_isSome _ (by rw [h]; rfl)
  obtain ⟨now, hnow⟩ := Option.isSome_iff_exists.mp hsome
  have hcases := hnow
  rw [hsplit] at hcases
  rcases get_applyWrites hcases with hold | ⟨w, hw, hname, rfl⟩
  · rw [h] at hold
    rw [Option.some.inj hold]
    exact .inl hnow
  · exact .inr ⟨w, List.mem_of_mem_drop hw, hname, hnow⟩

/-- An instance that has loaded knows what it restored. -/
def Restored (s : Orchestrator ν) : Prop := s.Ready → s.restoredRecord.isSome = true

theorem restored_step {e : OrchestratorEvent ν} (h : Restored s) (hu : Unwiped s)
    (hclear : e ≠ .clear) (hstep : s.step opts e = some s') : Restored s' := by
  intro hready'
  rcases hu.kept hstep with ⟨budget, rfl⟩ | ⟨hon, -⟩
  · exact absurd hready' (not_ready_fresh _ _ _)
  by_cases hready : s.Ready
  · rw [(hu.restoredRecord_step hon hready hstep).1]
    exact h hready
  · obtain ⟨l, record, ledger, saved, -, -, hs⟩ :=
      hu.becomes_ready (unwiped_step hu hclear hstep) hready hready' hstep
    obtain ⟨stop, reports, hr⟩ :=
      (s.withSteps record).restore_frame (record.getD .empty) ledger saved
    rw [hs, hr]
    rfl

/-- What holds of an instance whose records are kept. -/
structure Keeping (s : Orchestrator ν) : Prop where
  tallied : Tallied s
  unwiped : Unwiped s
  stored : Stored s
  newSteps : NewSteps s
  taken : Taken s
  restored : Restored s

theorem keeping_fresh (budget : WorkflowBudget) (store : Option Checkpoint)
    (ledger : List Charge) : Keeping (fresh budget store ledger : Orchestrator ν) where
  tallied := tallied_fresh budget store ledger
  unwiped := unwiped_fresh budget store ledger
  stored := stored_fresh budget store ledger
  newSteps := newSteps_fresh budget store ledger
  taken _ h := absurd h List.not_mem_nil
  restored h := absurd h (not_ready_fresh budget store ledger)

theorem keeping_step {e : OrchestratorEvent ν} (h : Keeping s) (hclear : e ≠ .clear)
    (haccountable : Accountable opts s e) (hstep : s.step opts e = some s') : Keeping s' where
  tallied := tallied_step h.tallied h.unwiped haccountable hstep
  unwiped := unwiped_step h.unwiped hclear hstep
  stored := stored_step h.stored h.unwiped hclear hstep
  newSteps := newSteps_step h.newSteps h.unwiped h.stored hstep
  taken := taken_step h.taken h.unwiped h.stored hstep
  restored := restored_step h.restored h.unwiped hclear hstep

/-- What an instance takes has all it has loaded, saved and been charged. -/
theorem Keeping.recordKept (h : Keeping s) (hready : s.Ready) :
    RecordKept s s.snapshot.record := by
  have hsteps := h.stored.snapshot hready
  constructor
  · obtain ⟨loaded, hloaded⟩ := Option.isSome_iff_exists.mp (h.restored hready)
    obtain ⟨saved, hparse, hsaved⟩ := h.tallied.restored.parsed loaded hloaded
    refine ⟨loaded, saved, hloaded, hparse, fun name entry hname hget => ?_,
      s.stop.map WorkflowStop.detail, ?_⟩
    · rw [hsteps name hname]
      refine h.newSteps.get_applied ?_ _
      unfold base
      rw [hloaded, Option.getD_some, OrderedMap.get_erase_ne _ hname]
      exact hget
    · rw [spendText_snapshot, h.tallied.totals, hsaved]
      rfl
  · intro call hcall before hbefore name entry hname hget
    obtain ⟨-, n, -, hsame⟩ := h.taken call hcall before hbefore
    rw [hsame name hname] at hget
    rw [hsteps name hname]
    exact get_applied_later hget

/-- **A step charges what it brings, and what it saves is kept.** -/
theorem Keeping.savesAll (h : Keeping s) (e : OrchestratorEvent ν) : SavesAll opts s e where
  charged s' hstep := by
    cases e with
    | crash budget =>
        obtain rfl := Option.some.inj hstep
        rfl
    | _ => exact h.unwiped.charges_step id hstep
  saved s' id record hstep hcalls := by
    obtain ⟨hready, rfl⟩ := h.unwiped.saves hstep hcalls
    exact h.recordKept hready

theorem Keeping.savesPaid (h : Keeping s) (hledger : Ledgered opts s)
    (e : OrchestratorEvent ν) : SavesPaid opts s e := by
  intro s' id record hstep hcalls
  obtain ⟨hready, rfl⟩ := h.unwiped.saves hstep hcalls
  exact hledger.snapshot h.tallied hready

/-! ### Along the runs -/

/-- **No record loses a step or a charge**, as long as no value that costs something has no
JSON text.  Every save of every run of a workflow that is not cleared has the steps that were
loaded and saved before, its spend is what was restored and every charge since, each once,
and every step in it has its own charge behind that spend if that held of the record the first
instance found. -/
theorem saves_sound {budget : WorkflowBudget} {store : Option Checkpoint} {ledger : List Charge}
    {es : List (OrchestratorEvent ν)} (hclear : ∀ e ∈ es, e ≠ .clear)
    (haccountable : Steps.Along (step opts) (Accountable opts) (fresh budget store ledger) es) :
    Steps.Along (step opts) (SavesAll opts) (fresh budget store ledger) es ∧
      (PaidUp opts store ledger →
        Steps.Along (step opts) (SavesPaid opts) (fresh budget store ledger) es) := by
  have hfresh := keeping_fresh (ν := ν) budget store ledger
  constructor
  · refine Steps.along_of_invariant (P := Keeping) (fun s e s' h he hc hstep => ?_)
      (fun s e h _ => h.savesAll e) hfresh hclear haccountable
    exact keeping_step h he hc hstep
  · intro hpaid
    refine Steps.along_of_invariant (P := fun s => Keeping s ∧ Ledgered opts s)
      (fun s e s' h he hc hstep => ?_) (fun s e h _ => h.1.savesPaid h.2 e)
      ⟨hfresh, ledgered_fresh hpaid⟩ hclear haccountable
    have hkeeping := h.1
    refine ⟨keeping_step hkeeping he hc hstep, ?_⟩
    exact ledgered_step h.2 hkeeping.tallied hkeeping.unwiped hkeeping.stored he hstep

/-! ### Two runs -/

/-- A caller whose results all cost five tokens, and whose values are circular, so that they
have no JSON text. -/
def circularOptions : OrchestratorOptions Unit :=
  ⟨js "workflow", fun _ => some ⟨JsNumber.ofInt 5, JsNumber.ofInt 0⟩, fun _ => none⟩

/-- A step of the router is saved, and another spend is recorded and saved after it. -/
def savedTwice : List (OrchestratorEvent Unit) :=
  answered ++ [.storeActs, .jobReturns, .recordSpend ⟨JsNumber.ofInt 7, JsNumber.ofInt 0⟩,
    .jobStarts, .jobLoaded]

theorem saves_sound_twice :
    Steps.Along (step circularOptions) (SavesAll circularOptions)
        (fresh noBudget none []) savedTwice ∧
      Steps.Along (step circularOptions) (SavesPaid circularOptions)
        (fresh noBudget none []) savedTwice := by
  have haccountable : Steps.Along (step circularOptions) (Accountable circularOptions)
      (fresh noBudget none []) savedTwice := by
    decide +kernel
  have hsound := saves_sound (by simp [savedTwice, answered]) haccountable
  exact ⟨hsound.1, hsound.2 (paidUp_nothing circularOptions)⟩

/-- The producer of a step returns a circular value, and a spend is recorded afterwards. -/
def circular : List (OrchestratorEvent Unit) :=
  [.call .memoize (js "plan"), .storeReads 0, .loadReturns 0, .loaded 0, .checked 0, .enters 0,
    .produced 0 (.ok ()), .continues 0, .recordSpend ⟨JsNumber.ofInt 7, JsNumber.ofInt 0⟩,
    .jobStarts]

/-- A save of what is in memory has the totals for its spend. -/
theorem RecordKept.totals (h : RecordKept s s.snapshot.record) :
    ∃ loaded saved, s.restoredRecord = some loaded ∧
      parsePersistedSpend (spendText (some loaded)) = some saved ∧
      s.totals.read = saved.totals + spent s.charges := by
  obtain ⟨loaded, saved, hloaded, hparse, -, stop, hspend⟩ := h.loaded
  rw [spendText_snapshot] at hspend
  exact ⟨loaded, saved, hloaded, hparse, congrArg PersistedSpend.totals (Option.some.inj hspend)⟩

/-- A save that begins calls the store with what is in memory. -/
theorem saves_of_longer (hstep : s.step opts .jobLoaded = some s')
    (h : s.storeCalls.length < s'.storeCalls.length) :
    ∃ id, s'.storeCalls = s.storeCalls ++ [⟨id, some s.snapshot.record⟩] := by
  have hsame (heq : s'.storeCalls = s.storeCalls) : False := absurd h (by rw [heq]; omega)
  cases Orchestrator.chain_step hstep with
  | quiet _ heq => exact (hsame (congrArg Chain.storeCalls heq)).elim
  | queued _ _ _ _ heq => exact (hsame (congrArg Chain.storeCalls heq)).elim
  | writing job rest ref hj hp ho hkept heq => exact ⟨job.id, congrArg Chain.storeCalls heq⟩
  | ended _ _ _ _ _ _ heq => exact (hsame (congrArg Chain.storeCalls heq)).elim

/-- The five tokens of the circular value are in no record. -/
theorem circular_not_charged : ¬ ∀ (opts : OrchestratorOptions Unit) (budget : WorkflowBudget)
    (store : Option Checkpoint) (ledger : List Charge) (es : List (OrchestratorEvent Unit)),
    (∀ e ∈ es, e ≠ .clear) →
      Steps.Along (step opts) (SavesAll opts) (fresh budget store ledger) es := by
  intro h
  have hsaves : (Steps.run (step circularOptions)
      (fresh noBudget none []) circular).any (fun s =>
        decide (s.restoredRecord.map (fun r => spendText (some r)) = some none ∧
          s.totals.read ≠ spent s.charges) &&
        (step circularOptions s .jobLoaded).any fun s' =>
          decide (s.storeCalls.length < s'.storeCalls.length)) = true := by
    decide +kernel
  obtain ⟨s, hrun, hs⟩ := (Option.any_eq_true _ _).mp hsaves
  obtain ⟨hbefore, hafter⟩ := Bool.and_eq_true_iff.mp hs
  obtain ⟨s', hstep, hs'⟩ := (Option.any_eq_true _ _).mp hafter
  obtain ⟨hempty, hdiffer⟩ := of_decide_eq_true hbefore
  obtain ⟨id, hcalls⟩ := saves_of_longer hstep (of_decide_eq_true hs')
  have halong := h circularOptions noBudget none []
    (circular ++ [.jobLoaded]) (by simp [circular])
  have hall : SavesAll circularOptions s .jobLoaded := halong.at_split hrun
  obtain ⟨loaded, saved, hloaded, hparse, htotals⟩ := (hall.saved s' id _ hstep hcalls).totals
  rw [hloaded, Option.map_some] at hempty
  have hzero : saved.totals = 0 := by
    obtain ⟨stop, hnothing⟩ := (paidUp_nothing circularOptions).1
    rw [Option.some.inj hempty] at hparse
    rw [Option.some.inj (hparse.symm.trans hnothing)]
    rfl
  rw [hzero, zero_add] at htotals
  exact hdiffer htotals

end Kaiban.Orchestrator
