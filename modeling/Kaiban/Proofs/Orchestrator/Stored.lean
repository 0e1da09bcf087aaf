/-
What is in memory and in the store, in a workflow that is not cleared.

The memory is the record that was loaded with the steps on top that were written since.  A
save takes all of these, and the store has as many of them as the last save that took effect
was taken after.
-/
import Kaiban.Proofs.Orchestrator.Unwiped

open JsString

namespace Kaiban.Orchestrator

variable {ν : Type} {opts : OrchestratorOptions ν} {s s' : Orchestrator ν}

/-! ### Steps written on top of a map -/

/-- The map with these steps on top. -/
def applyWrites (base : Checkpoint) (ws : List Write) : Checkpoint :=
  ws.foldl (fun m w => m.set w.name w.entry) base

theorem applyWrites_append (base : Checkpoint) (ws vs : List Write) :
    applyWrites base (ws ++ vs) = applyWrites (applyWrites base ws) vs := List.foldl_append

/-- A step is the one of the map, or was written. -/
theorem get_applyWrites {base : Checkpoint} {ws : List Write} {name : JsString}
    {entry : StepCheckpoint} (h : (applyWrites base ws).get name = some entry) :
    base.get name = some entry ∨ ∃ w ∈ ws, w.name = name ∧ w.entry = entry := by
  induction ws generalizing base with
  | nil => exact .inl h
  | cons w ws ih =>
      rcases @ih (base.set w.name w.entry) h with hbase | ⟨v, hv, hrest⟩
      · by_cases hname : name = w.name
        · subst hname
          rw [OrderedMap.get_set_self] at hbase
          exact .inr ⟨w, List.mem_cons_self, rfl, Option.some.inj hbase⟩
        · rw [OrderedMap.get_set_ne _ _ hname] at hbase
          exact .inl hbase
      · exact .inr ⟨v, List.mem_cons_of_mem _ hv, hrest⟩

/-- Steps of other names leave a step as it is. -/
theorem get_applyWrites_of_ne {base : Checkpoint} {ws : List Write} {name : JsString}
    (h : ∀ w ∈ ws, w.name ≠ name) : (applyWrites base ws).get name = base.get name := by
  induction ws generalizing base with
  | nil => rfl
  | cons w ws ih =>
      have hfirst := OrderedMap.get_set_ne base w.entry (Ne.symm (h w List.mem_cons_self))
      exact (ih fun v hv => h v (List.mem_cons_of_mem _ hv)).trans hfirst

/-- A step that is there stays there. -/
theorem get_applyWrites_isSome {base : Checkpoint} (ws : List Write) {name : JsString}
    (h : (base.get name).isSome = true) : ((applyWrites base ws).get name).isSome = true := by
  induction ws generalizing base with
  | nil => exact h
  | cons w ws ih =>
      refine @ih (base.set w.name w.entry) ?_
      by_cases hname : name = w.name
      · rw [hname, OrderedMap.get_set_self]
        rfl
      · rw [OrderedMap.get_set_ne _ _ hname]
        exact h

/-! ### The memory and the store -/

/-- The map that was loaded. -/
def base (s : Orchestrator ν) : Checkpoint := (s.restoredRecord.getD .empty).erase spendEntry

/-- It with the first steps that were written. -/
def applied (s : Orchestrator ν) (n : ℕ) : Checkpoint := applyWrites s.base (s.writes.take n)

/-- The record has these steps. -/
def SameSteps (record map : Checkpoint) : Prop :=
  ∀ name, name ≠ spendEntry → record.get name = map.get name

/-- The memory has every step that was written, the store those that a save took. -/
structure Stored (s : Orchestrator ν) : Prop where
  steps : s.Ready → s.steps = s.applied s.writes.length
  store : s.Ready → SameSteps (s.store.getD .empty) (s.applied s.flushed)
  flushed : s.flushed ≤ s.writes.length
  writing : ∀ job ∈ s.jobs, ∀ snap acted, job.phase = .writing snap acted → s.Ready ∧
    s.flushed ≤ snap.written ∧ snap.written ≤ s.writes.length ∧
      SameSteps snap.record (s.applied snap.written) ∧ (acted = true → s.flushed = snap.written)
  reads : ¬ s.Ready → ∀ l record ledger, (s.loads l).phase = .read record ledger →
    record = s.store ∧ ledger = s.storeLedger

theorem stored_fresh (budget : WorkflowBudget) (store : Option Checkpoint)
    (ledger : List Charge) : Stored (fresh budget store ledger : Orchestrator ν) where
  steps h := absurd h.choose_spec.1 (by simp [fresh])
  store h := absurd h.choose_spec.1 (by simp [fresh])
  flushed := le_rfl
  writing _ h := absurd h List.not_mem_nil
  reads _ _ _ _ h := absurd h (by simp [fresh])

theorem applied_all (s : Orchestrator ν) :
    s.applied s.writes.length = applyWrites s.base s.writes := by
  unfold applied
  rw [List.take_length]

/-- Steps written later are not among the first ones. -/
theorem applied_of_append {ws : List Write} (hrecord : s'.restoredRecord = s.restoredRecord)
    (hwrites : s'.writes = s.writes ++ ws) {n : ℕ} (hn : n ≤ s.writes.length) :
    s'.applied n = s.applied n := by
  unfold applied base
  rw [hrecord, hwrites, List.take_append_of_le_length hn]

variable [Arithmetic]

/-- A step adds to what is written, unless a new instance begins. -/
theorem writes_append {e : OrchestratorEvent ν} (hstep : s.step opts e = some s') :
    (∃ budget, s' = fresh budget s.store s.storeLedger) ∨ ∃ ws, s'.writes = s.writes ++ ws := by
  cases maps_step hstep with
  | kept _ hwritten => exact .inr ⟨[], by rw [hwritten, List.append_nil]⟩
  | wrote _ _ _ _ _ _ _ _ _ _ hwritten _ => exact .inr ⟨_, hwritten⟩
  | crashed budget heq => exact .inl ⟨budget, heq⟩

/-- The instance has restored its record: nothing is written yet. -/
theorem Stored.restored {l : ℕ} {record : Option Checkpoint} {ledger : List Charge}
    {saved : PersistedSpend} (h : Stored s) (hu : Unwiped s) (hnot : ¬ s.Ready)
    (hp : (s.loads l).phase = .read record ledger) (hready : s'.Ready)
    (hs : s' = ((s.withSteps record).restore (record.getD .empty) ledger saved).setLoad l
      (.settled true)) : Stored s' := by
  have hold : s.writes = [] := (hu.first.untouched hnot).unwritten hu.first.held
  obtain ⟨hsteps, hrecord, hwrites, hstore, hflushed, hjobs⟩ :
      s'.steps = (record.getD .empty).erase spendEntry ∧
        s'.restoredRecord = some (record.getD .empty) ∧ s'.writes = s.writes ∧
        s'.store = s.store ∧ s'.flushed = s.flushed ∧ s'.jobs = s.jobs := by
    obtain ⟨stop, reports, hr⟩ :=
      (s.withSteps record).restore_frame (record.getD .empty) ledger saved
    rw [hs, hr]
    exact ⟨if_pos rfl, rfl, rfl, rfl, rfl, rfl⟩
  have happlied : ∀ n, s'.applied n = (record.getD .empty).erase spendEntry := by
    intro n
    unfold applied base
    rw [hwrites, hold, hrecord, List.take_nil]
    rfl
  refine ⟨fun _ => ?_, fun _ name hname => ?_, ?_, fun job hmem snap acted hphase => ?_,
    fun hno => absurd hready hno⟩
  · rw [happlied, hsteps]
  · rw [happlied, OrderedMap.get_erase_ne _ hname, hstore, ← (h.reads hnot l record ledger hp).1]
  · rw [hflushed, hwrites]
    exact h.flushed
  · exact absurd (h.writing job (hjobs ▸ hmem) snap acted hphase).1 hnot

/-- The map of the instance takes the steps as they are written. -/
theorem Stored.steps_step {e : OrchestratorEvent ν} (h : Stored s) (hu : Unwiped s)
    (hready : s.Ready) (hready' : s'.Ready) (hrecord : s'.restoredRecord = s.restoredRecord)
    (hcheckpoint : s'.checkpoint = s.checkpoint) (hstep : s.step opts e = some s') :
    s'.steps = s'.applied s'.writes.length := by
  have hbase : s'.base = s.base := by
    unfold base
    rw [hrecord]
  have hold := h.steps hready
  rw [applied_all] at hold ⊢
  unfold Orchestrator.steps at hold ⊢
  cases maps_step hstep with
  | kept hmaps hwritten => rw [hcheckpoint, hmaps _ le_rfl, hold, hbase, hwritten]
  | wrote c kind name phase cp entry hc hwrites hmap hmaps hwritten h' =>
      obtain ⟨-, rfl⟩ := hu.given c _ cp hc (CallPhase.heldMap_of_workMap hwrites.workMap)
      rw [hcheckpoint, hmap, hold, hbase, hwritten, applyWrites_append]
      rfl
  | crashed budget heq => exact absurd hready' (heq ▸ not_ready_fresh _ _ _)

/-- The save chain and the store, once the instance is ready. -/
theorem Stored.chain_step {e : OrchestratorEvent ν} {ws : List Write} (h : Stored s)
    (hu : Unwiped s) (hready : s.Ready) (hready' : s'.Ready)
    (hrecord : s'.restoredRecord = s.restoredRecord) (hwrites : s'.writes = s.writes ++ ws)
    (hstep : s.step opts e = some s') :
    SameSteps (s'.store.getD .empty) (s'.applied s'.flushed) ∧ s'.flushed ≤ s'.writes.length ∧
      ∀ job ∈ s'.jobs, ∀ snap acted, job.phase = .writing snap acted → s'.Ready ∧
        s'.flushed ≤ snap.written ∧ snap.written ≤ s'.writes.length ∧
          SameSteps snap.record (s'.applied snap.written) ∧
            (acted = true → s'.flushed = snap.written) := by
  have hlength : s.writes.length ≤ s'.writes.length := by
    rw [hwrites, List.length_append]
    exact Nat.le_add_right _ _
  have happlied : ∀ n ≤ s.writes.length, s'.applied n = s.applied n := fun n hn =>
    applied_of_append hrecord hwrites hn
  have hwriting : ∀ job ∈ s.jobs, ∀ snap acted, job.phase = .writing snap acted → s'.Ready ∧
      s.flushed ≤ snap.written ∧ snap.written ≤ s'.writes.length ∧
        SameSteps snap.record (s'.applied snap.written) ∧
          (acted = true → s.flushed = snap.written) := by
    intro job hmem snap acted hphase
    obtain ⟨-, hle, hlen, hsame, hacted⟩ := h.writing job hmem snap acted hphase
    rw [happlied _ hlen]
    exact ⟨hready', hle, hlen.trans hlength, hsame, hacted⟩
  have hstore : SameSteps (s.store.getD .empty) (s'.applied s.flushed) := by
    rw [happlied _ h.flushed]
    exact h.store hready
  have hflushed : s.flushed ≤ s'.writes.length := h.flushed.trans hlength
  -- The store is as it was, and every job that writes was writing.
  have hquiet : s'.store = s.store → s'.flushed = s.flushed →
      (∀ job ∈ s'.jobs, (∃ snap acted, job.phase = .writing snap acted) → job ∈ s.jobs) →
      SameSteps (s'.store.getD .empty) (s'.applied s'.flushed) ∧ s'.flushed ≤ s'.writes.length ∧
        ∀ job ∈ s'.jobs, ∀ snap acted, job.phase = .writing snap acted → s'.Ready ∧
          s'.flushed ≤ snap.written ∧ snap.written ≤ s'.writes.length ∧
            SameSteps snap.record (s'.applied snap.written) ∧
              (acted = true → s'.flushed = snap.written) := by
    intro h1 h2 hjobs
    rw [h1, h2]
    exact ⟨hstore, hflushed, fun job hmem snap acted hphase =>
      hwriting job (hjobs job hmem ⟨snap, acted, hphase⟩) snap acted hphase⟩
  have hrest : ∀ (job : Job) (rest : List Job), s.jobs = job :: rest → ∀ x ∈ rest, x ∈ s.jobs :=
    fun job rest hj x hx => hj ▸ List.mem_cons_of_mem _ hx
  cases Orchestrator.chain_step hstep with
  | quiet _ heq =>
      refine hquiet (congrArg Chain.store heq) (congrArg Chain.flushed heq) fun job hmem _ => ?_
      have hjobs : s'.jobs = s.jobs := congrArg Chain.jobs heq
      exact hjobs ▸ hmem
  | queued _ kind _ _ heq =>
      refine hquiet (congrArg Chain.store heq) (congrArg Chain.flushed heq) fun job hmem hw => ?_
      have hjobs : s'.jobs = s.jobs ++ [⟨s.jobCount, kind, .queued⟩] := congrArg Chain.jobs heq
      rw [hjobs] at hmem
      rcases List.mem_append.mp hmem with hold | hnew
      · exact hold
      · obtain ⟨snap, acted, hphase⟩ := hw
        rw [List.mem_singleton.mp hnew] at hphase
        exact absurd hphase (by simp)
  | loading job rest owner hj hp hkind heq =>
      refine hquiet (congrArg Chain.store heq) (congrArg Chain.flushed heq) fun x hmem hw => ?_
      have hjobs : s'.jobs = { job with phase := .loading s.ensureLoaded.2 } :: rest :=
        congrArg Chain.jobs heq
      rw [hjobs] at hmem
      rcases List.mem_cons.mp hmem with rfl | hx
      · obtain ⟨snap, acted, hphase⟩ := hw
        exact absurd hphase (by simp)
      · exact hrest job rest hj x hx
  | clearing job rest hj hp hkind heq =>
      exact absurd hkind (hu.jobs job (hj ▸ List.mem_cons_self)).1
  | writing job rest ref hj hp ho hkept heq =>
      have h1 : s'.store = s.store := congrArg Chain.store heq
      have h2 : s'.flushed = s.flushed := congrArg Chain.flushed heq
      have hjobs : s'.jobs = { job with phase := .writing s.snapshot false } :: rest :=
        congrArg Chain.jobs heq
      rw [h1, h2]
      refine ⟨hstore, hflushed, fun x hx snap acted hphase => ?_⟩
      rw [hjobs] at hx
      rcases List.mem_cons.mp hx with rfl | hx
      · obtain ⟨rfl, rfl⟩ := JobPhase.writing.inj hphase
        refine ⟨hready', h.flushed, hlength, fun name hname => ?_, fun hno => absurd hno (by simp)⟩
        show (s.steps.set spendEntry _).get name = (s'.applied s.writes.length).get name
        rw [OrderedMap.get_set_ne _ _ hname, happlied _ le_rfl, h.steps hready]
      · exact hwriting x (hrest job rest hj x hx) snap acted hphase
  | saved job rest snap hj hp heq =>
      have h1 : s'.store = some snap.record := congrArg Chain.store heq
      have h2 : s'.flushed = snap.written := congrArg Chain.flushed heq
      have hjobs : s'.jobs = { job with phase := .writing snap true } :: rest :=
        congrArg Chain.jobs heq
      obtain ⟨-, -, hlen, hsame, -⟩ := hwriting job (hj ▸ List.mem_cons_self) snap false hp
      rw [h1, h2]
      refine ⟨hsame, hlen, fun x hx snap' acted hphase => ?_⟩
      rw [hjobs] at hx
      rcases List.mem_cons.mp hx with rfl | hx
      · obtain ⟨rfl, rfl⟩ := JobPhase.writing.inj hphase
        exact ⟨hready', le_rfl, hlen, hsame, fun _ => rfl⟩
      · have hqueued := hu.waiting x
        rw [hj] at hqueued
        exact absurd ((hqueued hx).symm.trans hphase) (by simp)
  | wiped job rest hj hp heq =>
      exact absurd hp ((hu.jobs job (hj ▸ List.mem_cons_self)).2.1 false)
  | ended _ he job rest hj hp heq =>
      refine hquiet (congrArg Chain.store heq) (congrArg Chain.flushed heq) fun x hmem _ => ?_
      have hjobs : s'.jobs = rest := congrArg Chain.jobs heq
      exact hrest job rest hj x (hjobs ▸ hmem)
  | crashed budget heq => exact absurd hready' (heq ▸ not_ready_fresh _ _ _)

/-- Before the instance is ready nothing reaches the store. -/
theorem Stored.unready_step {e : OrchestratorEvent ν} (h : Stored s) (hu : Unwiped s)
    (hnot : ¬ s.Ready) (hon : ¬ Crashes e) (hstep : s.step opts e = some s') :
    s'.store = s.store ∧ s'.storeLedger = s.storeLedger ∧ s'.flushed = s.flushed ∧
      ∀ job ∈ s'.jobs, ∀ snap acted, job.phase ≠ .writing snap acted := by
  have hold : ∀ job ∈ s.jobs, ∀ snap acted, job.phase ≠ .writing snap acted :=
    fun job hmem snap acted hphase => hnot (h.writing job hmem snap acted hphase).1
  have hrest : ∀ (job : Job) (rest : List Job), s.jobs = job :: rest → ∀ x ∈ rest, ∀ snap acted,
      x.phase ≠ .writing snap acted :=
    fun job rest hj x hx => hold x (hj ▸ List.mem_cons_of_mem _ hx)
  cases Orchestrator.chain_step hstep with
  | quiet _ heq =>
      simp only [chain, Chain.mk.injEq] at heq
      obtain ⟨h1, h2, -, h3, -, h4⟩ := heq
      rw [h1, h2, h3, h4]
      exact ⟨rfl, rfl, rfl, hold⟩
  | queued _ kind _ _ heq =>
      simp only [chain, Chain.mk.injEq] at heq
      obtain ⟨h1, h2, -, h3, -, h4⟩ := heq
      rw [h1, h2, h3, h4]
      refine ⟨rfl, rfl, rfl, fun job hmem => ?_⟩
      rcases List.mem_append.mp hmem with hmem | hmem
      · exact hold job hmem
      · rw [List.mem_singleton.mp hmem]
        exact fun _ _ => by simp
  | loading job rest owner hj hp hkind heq =>
      simp only [chain, Chain.mk.injEq] at heq
      obtain ⟨h1, h2, -, h3, -, h4⟩ := heq
      rw [h1, h2, h3, h4]
      refine ⟨rfl, rfl, rfl, fun x hmem => ?_⟩
      rcases List.mem_cons.mp hmem with rfl | hmem
      · exact fun _ _ => by simp
      · exact hrest job rest hj x hmem
  | clearing job rest hj hp hkind heq =>
      exact absurd hkind (hu.jobs job (hj ▸ List.mem_cons_self)).1
  | writing job rest ref hj hp ho hkept heq => exact absurd (hu.job_ready hj hp ho) hnot
  | saved job rest snap hj hp heq =>
      exact absurd hp (hold job (hj ▸ List.mem_cons_self) snap false)
  | wiped job rest hj hp heq =>
      exact absurd hp ((hu.jobs job (hj ▸ List.mem_cons_self)).2.1 false)
  | ended _ he job rest hj hp heq =>
      simp only [chain, Chain.mk.injEq] at heq
      obtain ⟨h1, h2, -, h3, -, h4⟩ := heq
      rw [h1, h2, h3, h4]
      exact ⟨rfl, rfl, rfl, hrest job rest hj⟩
  | crashed _ _ => exact absurd trivial hon

/-- What a load has read before the instance is ready is what the store holds. -/
theorem Stored.reads_step {e : OrchestratorEvent ν} (h : Stored s) (hu : Unwiped s)
    (hnot : ¬ s.Ready) (hon : ¬ Crashes e) (hstep : s.step opts e = some s') (l : ℕ)
    (record : Option Checkpoint) (ledger : List Charge)
    (hl : (s'.loads l).phase = .read record ledger) :
    record = s'.store ∧ ledger = s'.storeLedger := by
  obtain ⟨hstore, hledger, -, -⟩ := h.unready_step hu hnot hon hstep
  rw [hstore, hledger]
  have hold : (s.loads l).phase = .read record ledger → record = s.store ∧ ledger = s.storeLedger :=
    fun hp => h.reads hnot l record ledger hp
  have hset : ∀ (x : ℕ) (phase : LoadPhase), s'.loads = (s.setLoad x phase).loads →
      (phase = .read record ledger → record = s.store ∧ ledger = s.storeLedger) →
      record = s.store ∧ ledger = s.storeLedger := by
    intro x phase hloads hphase
    rw [hloads] at hl
    have hl' : (if l = x then (⟨(s.loads l).generation, phase⟩ : Load)
      else s.loads l).phase = .read record ledger := hl
    by_cases hlx : l = x
    · rw [if_pos hlx] at hl'
      exact hphase hl'
    · rw [if_neg hlx] at hl'
      exact hold hl'
  have hfailed : ∀ (t : Orchestrator ν) (x : ℕ), s'.loadView = (t.loadFailed x).loadView →
      t.loads = s.loads → record = s.store ∧ ledger = s.storeLedger := by
    intro t x heq hloads
    have hl' : s'.loads = (t.loadFailed x).loads := congrArg LoadView.loads heq
    rcases t.loadFailed_cases x with ⟨-, hs⟩ | ⟨-, hs⟩ <;> rw [hs] at hl'
    · refine hset x (.settled false) ?_ fun hno => absurd hno (by simp)
      rw [hl']
      unfold setLoad
      rw [hloads]
    · refine hset x (.settled true) ?_ fun hno => absurd hno (by simp)
      rw [hl']
      unfold setLoad
      rw [hloads]
  cases loads_step hstep with
  | quiet _ heq =>
      have hloads : s'.loads = s.loads := congrArg LoadView.loads heq
      exact hold (hloads ▸ hl)
  | asked _ heq =>
      have hloads : s'.loads = s.ensureLoaded.1.loads := congrArg LoadView.loads heq
      rw [hloads] at hl
      rcases s.ensureLoaded_cases with ⟨ref, -, hs⟩ | ⟨-, hs⟩ <;> rw [hs] at hl
      · exact hold hl
      · dsimp only at hl
        by_cases hnew : l = s.loadCount
        · rw [if_pos hnew] at hl
          exact absurd hl (by simp)
        · rw [if_neg hnew] at hl
          exact hold hl
  | read x hx hp heq =>
      refine hset x _ (congrArg LoadView.loads heq) fun hphase => ?_
      obtain ⟨hr, hc⟩ := LoadPhase.read.inj hphase
      exact ⟨hr.symm, hc.symm⟩
  | discarded x _ _ _ _ heq =>
      exact hset x _ (congrArg LoadView.loads heq) fun hno => absurd hno (by simp)
  | restored x _ _ _ _ heq =>
      exact hset x (.settled true) (congrArg LoadView.loads heq) fun hno => absurd hno (by simp)
  | broken x record' _ _ _ heq => exact hfailed (s.withSteps record') x heq rfl
  | threw x _ _ heq => exact hfailed s x heq rfl
  | wiped heq =>
      have hloads : s'.loads = s.loads := congrArg LoadView.loads heq
      exact hold (hloads ▸ hl)
  | crashed _ _ => exact absurd trivial hon

/-- **Every step keeps the memory and the store in line with what is written.** -/
theorem stored_step {e : OrchestratorEvent ν} (h : Stored s) (hu : Unwiped s) (hclear : e ≠ .clear)
    (hstep : s.step opts e = some s') : Stored s' := by
  have hu' := unwiped_step hu hclear hstep
  rcases hu.kept hstep with ⟨budget, rfl⟩ | ⟨hon, hkept⟩
  · exact stored_fresh budget s.store s.storeLedger
  · rcases writes_append hstep with ⟨budget, rfl⟩ | ⟨ws, hwrites⟩
    · exact stored_fresh budget s.store s.storeLedger
    · by_cases hready : s.Ready
      · obtain ⟨hready', hcheckpoint⟩ := hkept hready
        obtain ⟨hrecord, -, -⟩ := hu.restoredRecord_step hon hready hstep
        obtain ⟨hstore, hflushed, hwriting⟩ :=
          h.chain_step hu hready hready' hrecord hwrites hstep
        exact ⟨fun _ => h.steps_step hu hready hready' hrecord hcheckpoint hstep, fun _ => hstore,
          hflushed, hwriting, fun hno => absurd hready' hno⟩
      · by_cases hready' : s'.Ready
        · obtain ⟨l, record, ledger, saved, hp, -, hs⟩ :=
            hu.becomes_ready hu' hready hready' hstep
          exact h.restored hu hready hp hready' hs
        · obtain ⟨-, -, hflushed, hwriting⟩ := h.unready_step hu hready hon hstep
          refine ⟨fun hr => absurd hr hready', fun hr => absurd hr hready', ?_,
            fun job hmem snap acted hphase => absurd hphase (hwriting job hmem snap acted),
            fun _ => h.reads_step hu hready hon hstep⟩
          rw [hflushed, hwrites, List.length_append]
          exact h.flushed.trans (Nat.le_add_right _ _)

end Kaiban.Orchestrator
