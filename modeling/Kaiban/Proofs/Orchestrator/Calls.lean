/-
What a step does to the calls, and to the steps they write.

A call moves from one phase to the next, begins the work of its step, or writes the step it
has a result for.  `calls_step` lists these, with the changes of the maps that no call makes:
a load and a reset give the instance a new one.
-/
import Kaiban.Proofs.Orchestrator.Transitions

open JsString

namespace Kaiban

/-- The map a call has that works on its step. -/
def CallPhase.workMap {ν : Type} : CallPhase ν → Option ℕ
  | .dispatching cp => some cp
  | .waiting cp _ => some cp
  | .producing cp => some cp
  | .produced cp _ => some cp
  | _ => none

namespace Orchestrator

variable {ν : Type} {opts : OrchestratorOptions ν} {s s' : Orchestrator ν}

/-- The fields about calls, and the steps in memory. -/
structure Memory (ν : Type) where
  maps : ℕ → Checkpoint
  checkpoint : ℕ
  generation : ℕ
  calls : ℕ → Option (StepCall ν)
  callCount : ℕ
  begun : List ℕ
  writes : List Write

def memory (s : Orchestrator ν) : Memory ν :=
  ⟨s.maps, s.checkpoint, s.generation, s.calls, s.callCount, s.begun, s.writes⟩

/-- The event ends the head job. -/
def Settles : OrchestratorEvent ν → Prop
  | .jobLoaded => True
  | .jobReturns => True
  | .jobThrows => True
  | _ => False

/-- The calls that wait for a save. -/
def owners (s : Orchestrator ν) : List ℕ :=
  s.jobs.filterMap fun job =>
    match job.kind with
    | .save owner => owner
    | .wipe => none

/-- The phase a call goes to, when it neither begins its work nor writes its step. -/
inductive Moves (opts : OrchestratorOptions ν) (s : Orchestrator ν) (c : ℕ) (kind : CallKind)
    (name : JsString) : OrchestratorEvent ν → CallPhase ν → CallPhase ν → Prop
  | notLoaded (generation : ℕ) (ref : LoadRef) :
      Moves opts s c kind name (.loaded c) (.loading generation ref) (.rejected (.failed .load))
  | answered (generation : ℕ) (ref : LoadRef) (resuming : Bool) (hkind : kind = .isResuming) :
      Moves opts s c kind name (.loaded c) (.loading generation ref) (.answered resuming)
  | loaded (generation : ℕ) (ref : LoadRef) (ho : s.outcome ref = some true)
      (hkind : kind ≠ .isResuming) :
      Moves opts s c kind name (.loaded c) (.loading generation ref)
        (.loaded generation s.checkpoint)
  | wiped (generation cp : ℕ) (hgen : generation ≠ s.generation) :
      Moves opts s c kind name (.checked c) (.loaded generation cp) (.rejected (clearedError name))
  | checked (generation cp : ℕ) (hgen : generation = s.generation) :
      Moves opts s c kind name (.checked c) (.loaded generation cp) (.started cp)
  | replayed (cp : ℕ) (e : StepCheckpoint) (hget : (s.maps cp).get name = some e)
      (hparse : kind = .memoize → (e.result.bind Json.parse).isSome = true) :
      Moves opts s c kind name (.enters c) (.started cp) (.resolved e.result)
  | inherited (cp : ℕ) (hget : (s.maps cp).get name = none) (hname : name ∈ inheritedNames)
      (hkind : kind ≠ .memoize) :
      Moves opts s c kind name (.enters c) (.started cp) (.resolved none)
  | notParsed (cp : ℕ) (hkind : kind = .memoize)
      (hfound : (∃ e, (s.maps cp).get name = some e ∧ e.result.bind Json.parse = none) ∨
        (s.maps cp).get name = none ∧ name ∈ inheritedNames) :
      Moves opts s c kind name (.enters c) (.started cp) (.rejected (.failed .parse))
  | refused (cp : ℕ) (err : CallError) (hget : (s.maps cp).get name = none)
      (herr : s.dispatchRefused opts = some err) :
      Moves opts s c kind name (.enters c) (.started cp) (.rejected err)
  | notDispatched (cp : ℕ) :
      Moves opts s c kind name (.dispatched c (.error ())) (.dispatching cp)
        (.rejected (.failed .dispatch))
  | waits (cp : ℕ) (taskId : JsString) (hfind : findByTaskId (s.maps cp) taskId = none) :
      Moves opts s c kind name (.dispatched c (.ok taskId)) (.dispatching cp) (.waiting cp taskId)
  | notWaited (cp : ℕ) (taskId : JsString) :
      Moves opts s c kind name (.waited c (.error ())) (.waiting cp taskId)
        (.rejected (.failed .wait))
  | produced (cp : ℕ) (value : ν) :
      Moves opts s c kind name (.produced c (.ok value)) (.producing cp) (.produced cp value)
  | notProduced (cp : ℕ) :
      Moves opts s c kind name (.produced c (.error ())) (.producing cp)
        (.rejected (.failed .produce))
  | notStringified (cp : ℕ) (value : ν) (hv : opts.stringify value = none) :
      Moves opts s c kind name (.continues c) (.produced cp value)
        (.rejected (.failed .stringify))
  | saved (e : OrchestratorEvent ν) (he : Settles e) (result : Option JsString)
      (howner : c ∈ s.owners) :
      Moves opts s c kind name e (.saving result) (.saved result)
  | notSaved (e : OrchestratorEvent ν) (he : Settles e) (phase : CallPhase ν)
      (howner : c ∈ s.owners) :
      Moves opts s c kind name e phase (.rejected (.failed .save))
  | resolved (result : Option JsString) :
      Moves opts s c kind name (.finishes c) (.saved result) (.resolved result)

/-- What a call writes: the result of another step with its task, the result it waited for,
or the value of its producer. -/
inductive Writes (opts : OrchestratorOptions ν) (s : Orchestrator ν) (c : ℕ) (name : JsString) :
    OrchestratorEvent ν → CallPhase ν → ℕ → StepCheckpoint → Prop
  | found (cp : ℕ) (taskId result : JsString)
      (hfind : findByTaskId (s.maps cp) taskId = some result) :
      Writes opts s c name (.dispatched c (.ok taskId)) (.dispatching cp) cp ⟨taskId, some result⟩
  | waited (cp : ℕ) (taskId result : JsString) :
      Writes opts s c name (.waited c (.ok result)) (.waiting cp taskId) cp ⟨taskId, some result⟩
  | produced (cp : ℕ) (value : ν) (result : Option JsString)
      (hv : opts.stringify value = some result) :
      Writes opts s c name (.continues c) (.produced cp value) cp ⟨js "memoize:" ++ name, result⟩

theorem Writes.workMap {c : ℕ} {name : JsString} {e : OrchestratorEvent ν} {phase : CallPhase ν}
    {cp : ℕ} {entry : StepCheckpoint} (h : Writes opts s c name e phase cp entry) :
    phase.workMap = some cp := by
  cases h <;> rfl

/-- What a step does to these fields. -/
inductive CallsChange (opts : OrchestratorOptions ν) (s s' : Orchestrator ν) :
    OrchestratorEvent ν → Prop
  | quiet (e : OrchestratorEvent ν) (h : s'.memory = s.memory) : CallsChange opts s s' e
  | called (kind : CallKind) (name : JsString) (phase : CallPhase ν)
      (hphase : phase = .rejected reservedError ∨
        phase = .loading s.generation s.ensureLoaded.2 ∧ s'.loading = some s.ensureLoaded.2)
      (h : s'.memory = (s.newCall ⟨kind, name, phase⟩).memory) :
      CallsChange opts s s' (.call kind name)
  | moved (e : OrchestratorEvent ν) (c : ℕ) (kind : CallKind) (name : JsString)
      (phase phase' : CallPhase ν) (hc : s.calls c = some ⟨kind, name, phase⟩)
      (hmoves : Moves opts s c kind name e phase phase')
      (h : s'.memory = (s.setPhase c phase').memory) : CallsChange opts s s' e
  | began (c : ℕ) (kind : CallKind) (name : JsString) (cp : ℕ)
      (hc : s.calls c = some ⟨kind, name, .started cp⟩) (hget : (s.maps cp).get name = none)
      (hname : name ∉ inheritedNames) (h : s'.memory = { s.setPhase c
        (if kind = CallKind.memoize then .producing cp else .dispatching cp) with
          begun := s.begun ++ [c] }.memory) : CallsChange opts s s' (.enters c)
  | stored (e : OrchestratorEvent ν) (c : ℕ) (kind : CallKind) (name : JsString)
      (phase : CallPhase ν) (cp : ℕ) (entry : StepCheckpoint)
      (hc : s.calls c = some ⟨kind, name, phase⟩)
      (hwrites : Writes opts s c name e phase cp entry)
      (h : s'.memory = (s.stored c name cp entry).memory) : CallsChange opts s s' e
  /-- A load gives the instance a map. -/
  | remapped (l : ℕ) (record : Option Checkpoint) (ledger : List Charge)
      (hp : (s.loads l).phase = .read record ledger)
      (hgen : (s.loads l).generation = s.generation)
      (h : s'.memory = (s.withSteps record).memory) : CallsChange opts s s' (.loadReturns l)
  | wiped (h : s'.memory = s.reset.memory) : CallsChange opts s s' .jobStarts
  | signalled (h : s'.memory = s.signalStop.memory) : CallsChange opts s s' .signalStop
  | crashed (budget : WorkflowBudget) (h : s' = fresh budget s.store s.storeLedger) :
      CallsChange opts s s' (.crash budget)

theorem memory_stored {t : Orchestrator ν} (h : t.memory = s.memory) (c : ℕ) (name : JsString)
    (cp : ℕ) (entry : StepCheckpoint) :
    (t.stored c name cp entry).memory = (s.stored c name cp entry).memory := by
  simp only [memory, Memory.mk.injEq] at h
  obtain ⟨hmaps, hcheckpoint, hgeneration, hcalls, hcount, hbegun, hwrites⟩ := h
  simp only [memory, stored, writeStep, saveStep, persist, enqueue, setPhase, Memory.mk.injEq]
  simp [hmaps, hcheckpoint, hgeneration, hcalls, hcount, hbegun, hwrites]

variable [Arithmetic] in
theorem memory_paid (name : JsString) (result : JsString ⊕ ν) :
    (s.paid opts name result).memory = s.memory := by
  obtain ⟨totals, stop, reports, h⟩ := paid_frame opts s name result
  rw [h]
  rfl

theorem setPhase_none {c : ℕ} (hc : s.calls c = none) (phase : CallPhase ν) :
    s.setPhase c phase = s := by
  have hcalls : (fun x => if x = c then (s.calls x).map fun call => { call with phase := phase }
      else s.calls x) = s.calls := by
    funext x
    by_cases hx : x = c
    · subst hx
      simp [hc]
    · simp [hx]
  unfold setPhase
  rw [hcalls]

/-- The end of a job moves the call that waits for it, or no call. -/
theorem jobSettled_change (e : OrchestratorEvent ν) (he : Settles e) {job : Job} {rest : List Job}
    (hj : s.jobs = job :: rest) (ok : Bool) :
    CallsChange opts s (s.jobSettled job rest ok) e := by
  unfold jobSettled
  extract_lets t
  have ht : t.memory = s.memory := rfl
  have hset : ∀ c phase, (t.setPhase c phase).memory = (s.setPhase c phase).memory :=
    fun _ _ => rfl
  split
  · rename_i c hkind
    have howner : c ∈ s.owners := by
      unfold owners
      rw [hj]
      simp [hkind]
    cases hc : s.calls c with
    | none =>
        have hsame : ∀ phase, t.setPhase c phase = t := fun _ => setPhase_none (s := t) hc _
        split
        · split
          · rename_i hsaving
            exact absurd hsaving (by simp)
          · exact .quiet e ht
        · rw [hsame]
          exact .quiet e ht
    | some call =>
        obtain ⟨kind, name, phase⟩ := call
        split
        · split
          · rename_i kind' name' result hsaving
            obtain ⟨rfl, rfl, rfl⟩ : kind = kind' ∧ name = name' ∧ phase = .saving result := by
              simpa using hsaving
            exact .moved e c kind name _ _ hc (.saved e he result howner) (hset c _)
          · exact .quiet e ht
        · exact .moved e c kind name phase _ hc (.notSaved e he phase howner) (hset c _)
  · exact .quiet e ht

variable [Arithmetic] in
/-- **Every step changes the calls in one of the listed ways.** -/
theorem calls_step {e : OrchestratorEvent ν} (hstep : s.step opts e = some s') :
    CallsChange opts s s' e := by
  cases transition hstep with
  | called kind name =>
      rcases s.startCall_cases kind name with ⟨-, -, hs⟩ | ⟨-, hs⟩ <;> rw [hs]
      · exact .called kind name _ (.inl rfl) rfl
      · refine .called kind name _ (.inr ⟨rfl, s.ensureLoaded_loading⟩) ?_
        obtain ⟨loads, count, loading, hl⟩ := s.ensureLoaded_frame
        rw [hl]
        rfl
  | recorded delta =>
      obtain ⟨stop, reports, hs⟩ := s.recordSpend_frame delta
      rw [hs]
      exact .quiet _ rfl
  | loadReturned l record ledger hp =>
      rcases s.loadReturned_cases l record ledger with ⟨-, hs⟩ | ⟨hgen, -, hs⟩ |
        ⟨saved, hgen, -, hs⟩ <;> rw [hs]
      · exact .quiet _ rfl
      · refine .remapped l record ledger hp hgen ?_
        obtain ⟨loads, loading, hl⟩ := (s.withSteps record).loadFailed_frame l
        rw [hl]
        rfl
      · refine .remapped l record ledger hp hgen ?_
        obtain ⟨stop, reports, hr⟩ :=
          (s.withSteps record).restore_frame (record.getD .empty) ledger saved
        rw [hr]
        rfl
  | loadThrew l hl hp =>
      obtain ⟨loads, loading, hs⟩ := s.loadFailed_frame l
      rw [hs]
      exact .quiet _ rfl
  | callLoaded c kind name generation ref ok hc ho =>
      rcases s.callLoaded_cases c kind generation ok with ⟨-, hs⟩ | ⟨-, hkind, b, hs⟩ |
        ⟨rfl, hkind, hs⟩ <;> rw [hs]
      · exact .moved _ c kind name _ _ hc (.notLoaded generation ref) rfl
      · exact .moved _ c kind name _ _ hc (.answered generation ref b hkind) rfl
      · exact .moved _ c kind name _ _ hc (.loaded generation ref ho hkind) rfl
  | callChecked c kind name generation cp hc =>
      rcases s.callChecked_cases c name generation cp with ⟨hgen, hs⟩ | ⟨hgen, hs⟩ <;> rw [hs]
      · exact .moved _ c kind name _ _ hc (.wiped generation cp hgen) rfl
      · exact .moved _ c kind name _ _ hc (.checked generation cp hgen) rfl
  | entered c kind name cp hc =>
      rcases enter_cases opts s c kind name cp with ⟨e, hget, hs⟩ | ⟨hget, hname, hs⟩ |
        ⟨err, hget, -, herr, hs⟩ | ⟨hget, hname, -, -, hs⟩ <;> rw [hs]
      · rcases replay_cases (ν := ν) kind e.result with
          ⟨hparse, hr⟩ | ⟨hkind, hparse, hr⟩ <;> rw [hr]
        · exact .moved _ c kind name _ _ hc (.replayed cp e hget hparse) rfl
        · exact .moved _ c kind name _ _ hc (.notParsed cp hkind (.inl ⟨e, hget, hparse⟩)) rfl
      · rcases replay_cases (ν := ν) kind none with ⟨hparse, hr⟩ | ⟨hkind, -, hr⟩ <;> rw [hr]
        · refine .moved _ c kind name _ _ hc (.inherited cp hget hname fun hkind => ?_) rfl
          exact absurd (hparse hkind) (by simp)
        · exact .moved _ c kind name _ _ hc (.notParsed cp hkind (.inr ⟨hget, hname⟩)) rfl
      · exact .moved _ c kind name _ _ hc (.refused cp err hget herr) rfl
      · exact .began c kind name cp hc hget hname rfl
  | dispatched c kind name cp r hc =>
      rcases s.dispatched_cases c name cp r with ⟨rfl, hs⟩ | ⟨taskId, result, rfl, hfind, hs⟩ |
        ⟨taskId, rfl, hfind, hs⟩ <;> rw [hs]
      · exact .moved _ c kind name _ _ hc (.notDispatched cp) rfl
      · exact .stored _ c kind name _ cp _ hc (.found cp taskId result hfind) rfl
      · exact .moved _ c kind name _ _ hc (.waits cp taskId hfind) rfl
  | waited c kind name cp taskId r hc =>
      rcases waited_cases opts s c name cp taskId r with ⟨rfl, hs⟩ | ⟨result, rfl, hs⟩ <;> rw [hs]
      · exact .moved _ c kind name _ _ hc (.notWaited cp taskId) rfl
      · exact .stored _ c kind name _ cp _ hc (.waited cp taskId result)
          (memory_stored (memory_paid name _) c name cp _)
  | produced c kind name cp value hc => exact .moved _ c kind name _ _ hc (.produced cp value) rfl
  | notProduced c kind name cp hc => exact .moved _ c kind name _ _ hc (.notProduced cp) rfl
  | continued c kind name cp value hc =>
      rcases continued_cases opts s c name cp value with ⟨hv, hs⟩ | ⟨result, hv, hs⟩ <;> rw [hs]
      · exact .moved _ c kind name _ _ hc (.notStringified cp value hv) rfl
      · exact .stored _ c kind name _ cp _ hc (.produced cp value result hv)
          (memory_stored (memory_paid name _) c name cp _)
  | jobStarted job rest hj hp =>
      rcases s.jobStarted_cases job rest with ⟨owner, -, hs⟩ | ⟨-, hs⟩ <;> rw [hs]
      · obtain ⟨loads, count, loading, hl⟩ := s.ensureLoaded_frame
        rw [hl]
        exact .quiet _ rfl
      · exact .wiped rfl
  | jobLoaded job rest ref ok hj hp ho =>
      rcases s.jobLoaded_cases job rest ok with ⟨-, hs⟩ | ⟨-, -, -, hs⟩ | ⟨-, -, hs⟩ <;> rw [hs]
      · exact jobSettled_change .jobLoaded trivial hj false
      · exact jobSettled_change .jobLoaded trivial hj true
      · exact .quiet _ rfl
  | jobReturned job rest hj hp => exact jobSettled_change .jobReturns trivial hj true
  | jobThrew job rest hj hp => exact jobSettled_change .jobThrows trivial hj false
  | finished c kind name result hc =>
      exact .moved _ c kind name _ _ hc (.resolved result) rfl
  | signalStopped => exact .signalled rfl
  | crashed budget => exact .crashed budget rfl
  | _ => exact .quiet _ rfl

/-! ### One call -/

/-- What a step does to one call. -/
inductive CallStep (opts : OrchestratorOptions ν) (s s' : Orchestrator ν)
    (e : OrchestratorEvent ν) (c : ℕ) : Prop
  | same (h' : s'.calls c = s.calls c)
  | called (kind : CallKind) (name : JsString) (phase : CallPhase ν) (hcount : c = s.callCount)
      (he : e = .call kind name)
      (hgen : s'.generation = s.generation)
      (hphase : phase = .rejected reservedError ∨
        phase = .loading s.generation s.ensureLoaded.2 ∧ s'.loading = some s.ensureLoaded.2)
      (h' : s'.calls c = some ⟨kind, name, phase⟩)
  | moved (kind : CallKind) (name : JsString) (phase phase' : CallPhase ν)
      (hc : s.calls c = some ⟨kind, name, phase⟩)
      (hmoves : Moves opts s c kind name e phase phase')
      (h' : s'.calls c = some ⟨kind, name, phase'⟩)
  | began (kind : CallKind) (name : JsString) (cp : ℕ)
      (he : e = .enters c) (hc : s.calls c = some ⟨kind, name, .started cp⟩)
      (hget : (s.maps cp).get name = none) (hname : name ∉ inheritedNames)
      (hbegun : s'.begun = s.begun ++ [c])
      (h' : s'.calls c = some ⟨kind, name,
        if kind = CallKind.memoize then .producing cp else .dispatching cp⟩)
  | stored (kind : CallKind) (name : JsString) (phase : CallPhase ν) (cp : ℕ)
      (entry : StepCheckpoint) (hc : s.calls c = some ⟨kind, name, phase⟩)
      (hwrites : Writes opts s c name e phase cp entry)
      (hwritten : s'.writes = s.writes ++ [⟨cp, c, name, entry⟩])
      (h' : s'.calls c = some ⟨kind, name, .saving entry.result⟩)
  | signalled (kind : CallKind) (name : JsString) (cp : ℕ)
      (hc : s.calls c = some ⟨kind, name, .producing cp⟩)
      (h' : s'.calls c = some ⟨kind, name, .rejected .stopped⟩)
  | crashed (budget : WorkflowBudget) (h : s' = fresh budget s.store s.storeLedger)
      (he : e = .crash budget)

theorem setPhase_self {c : ℕ} {kind : CallKind} {name : JsString} {phase : CallPhase ν}
    (hc : s.calls c = some ⟨kind, name, phase⟩) (phase' : CallPhase ν) :
    (s.setPhase c phase').calls c = some ⟨kind, name, phase'⟩ := by
  show (if c = c then (s.calls c).map _ else _) = _
  rw [if_pos rfl, hc]
  rfl

theorem setPhase_ne {c x : ℕ} (hx : x ≠ c) (phase : CallPhase ν) :
    (s.setPhase c phase).calls x = s.calls x := if_neg hx

variable [Arithmetic] in
/-- **What a step does to one call is one of these.** -/
theorem call_step {e : OrchestratorEvent ν} (hstep : s.step opts e = some s') (x : ℕ) :
    CallStep opts s s' e x := by
  cases calls_step hstep with
  | quiet _ h => exact .same (congrFun (congrArg Memory.calls h) x)
  | called kind name phase hphase h =>
      have hcalls : s'.calls x = (if x = s.callCount then some ⟨kind, name, phase⟩
        else s.calls x) := congrFun (congrArg Memory.calls h) x
      by_cases hx : x = s.callCount
      · rw [if_pos hx] at hcalls
        exact .called kind name phase hx rfl (congrArg Memory.generation h) hphase hcalls
      · rw [if_neg hx] at hcalls
        exact .same hcalls
  | moved _ c kind name phase phase' hc hmoves h =>
      have hcalls : s'.calls x = (s.setPhase c phase').calls x :=
        congrFun (congrArg Memory.calls h) x
      by_cases hx : x = c
      · subst hx
        exact .moved kind name phase phase' hc hmoves (hcalls.trans (setPhase_self hc phase'))
      · exact .same (hcalls.trans (setPhase_ne hx phase'))
  | began c kind name cp hc hget hname h =>
      have hcalls : s'.calls x = (s.setPhase c
          (if kind = CallKind.memoize then .producing cp else .dispatching cp)).calls x :=
        congrFun (congrArg Memory.calls h) x
      by_cases hx : x = c
      · subst hx
        exact .began kind name cp rfl hc hget hname (congrArg Memory.begun h)
          (hcalls.trans (setPhase_self hc _))
      · exact .same (hcalls.trans (setPhase_ne hx _))
  | stored _ c kind name phase cp entry hc hwrites h =>
      have hcalls : s'.calls x = (s.setPhase c (.saving entry.result)).calls x :=
        congrFun (congrArg Memory.calls h) x
      by_cases hx : x = c
      · subst hx
        exact .stored kind name phase cp entry hc hwrites (congrArg Memory.writes h)
          (hcalls.trans (setPhase_self hc _))
      · exact .same (hcalls.trans (setPhase_ne hx _))
  | remapped l record ledger hp hgen h => exact .same (congrFun (congrArg Memory.calls h) x)
  | wiped h => exact .same (congrFun (congrArg Memory.calls h) x)
  | signalled h =>
      have hcalls : s'.calls x = s.signalStop.calls x := congrFun (congrArg Memory.calls h) x
      cases hc : s.calls x with
      | none =>
          refine .same (hcalls.trans ?_)
          show (s.calls x).map _ = s.calls x
          rw [hc]
          rfl
      | some call =>
          obtain ⟨kind, name, phase⟩ := call
          have hsignal : s.signalStop.calls x = (some ⟨kind, name, phase⟩ :
              Option (StepCall ν)).map _ := congrArg (Option.map _) hc
          cases phase with
          | producing cp => exact .signalled kind name cp hc (hcalls.trans hsignal)
          | _ => exact .same ((hcalls.trans hsignal).trans hc.symm)
  | crashed budget h => exact .crashed budget h rfl

end Orchestrator

end Kaiban
