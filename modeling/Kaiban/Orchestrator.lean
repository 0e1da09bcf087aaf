/-
The workflow orchestrator, its checkpoint store, and crashes.

A run is a list of events, one for each uninterrupted reaction: a call, the settling of
something a call waits for, a load or a job of the save chain that goes on, the store
acting, a stop signal, a crash.  Objects are kept as the code keeps them: the checkpoint is
a reference to one of several maps, because a call holds on to the map it was given, and
loads are numbered, because a call waits for the load there was when it came.

Saves and wipes run one at a time, in the order they were asked for, so the save chain is a
queue whose head is the job that runs.  The store acts at some moment between being called
and answering, or fails and does not act.

Fields under "history" are written and never read by the code.
-/
import Kaiban.Budget
import Kaiban.Lib.OrderedMap

open JsString

namespace Kaiban

/-- `StepCheckpoint`; the result of a step without one is `undefined`. -/
structure StepCheckpoint where
  taskId : JsString
  result : Option JsString
  deriving DecidableEq

/-- `WorkflowCheckpoint`. -/
abbrev Checkpoint := OrderedMap JsString StepCheckpoint

/-- `SPEND_ENTRY`. -/
def spendEntry : JsString := js "__workflow_spend__"

/-- The names every object has without owning them. -/
def inheritedNames : List JsString :=
  ["constructor", "__defineGetter__", "__defineSetter__", "hasOwnProperty", "__lookupGetter__",
    "__lookupSetter__", "isPrototypeOf", "propertyIsEnumerable", "toString", "valueOf",
    "__proto__", "toLocaleString"].map js

/-- What reading a property of a checkpoint finds. -/
inductive Property where
  | own (e : StepCheckpoint)
  /-- Something that is no step, and whose `result` is `undefined`. -/
  | inherited
  | absent
  deriving DecidableEq

/-- `cp[name]`. -/
def lookup (cp : Checkpoint) (name : JsString) : Property :=
  match cp.get name with
  | some e => .own e
  | none => if name ∈ inheritedNames then .inherited else .absent

/-- The number a name is, if it is an array index. -/
def arrayIndex (name : JsString) : Option ℕ :=
  let n : ℕ := name.foldl (fun n u => 10 * n + (u.val - 0x30)) 0
  if name = NumberText.numberText (Decimal.ofInt n) ∧ n < 4294967295 then some n else none

/-- `Object.values(cp)`: array indices come first, in their order. -/
def objectValues (cp : Checkpoint) : List StepCheckpoint :=
  let indexed := cp.entries.filterMap fun e => (arrayIndex e.1).map fun n => (n, e.2)
  (indexed.mergeSort fun a b => a.1 ≤ b.1).map Prod.snd ++
    (cp.entries.filter fun e => (arrayIndex e.1).isNone).map Prod.snd

/-- `findByTaskId(cp, taskId)`. -/
def findByTaskId (cp : Checkpoint) (taskId : JsString) : Option JsString :=
  ((objectValues cp).find? fun e => e.taskId = taskId).bind StepCheckpoint.result

/-- The options the code takes from its caller.  `ν` is what producers return. -/
structure OrchestratorOptions (ν : Type) where
  workflowId : JsString
  spendOf : JsString ⊕ ν → Option SpendDelta
  /-- `JSON.stringify(value ?? null)`: it may throw, and may give no text. -/
  stringify : ν → Option (Option JsString)

/-- `WorkflowStop`; its reason is `budget_exceeded`. -/
structure WorkflowStop where
  detail : JsString
  totals : RunningTotals

/-! ### Loads, calls and jobs -/

/-- What a step, or a call of `recordSpend`, was found to cost. -/
structure Charge where
  step : Option JsString
  amount : SpendTotals

inductive LoadPhase where
  /-- The store has been asked. -/
  | reading
  /-- The store has read this record, with the charges behind it. -/
  | read (record : Option Checkpoint) (ledger : List Charge)
  | settled (ok : Bool)

structure Load where
  generation : ℕ
  phase : LoadPhase

/-- A promise `loading` was set to: a load, or the resolved one `clear()` leaves. -/
inductive LoadRef where
  | load (l : ℕ)
  | reset
  deriving DecidableEq

inductive CallKind where
  | runStep
  | memoize
  | isResuming
  deriving DecidableEq

/-- What the code waits for that can fail. -/
inductive Source where
  | load
  | dispatch
  | wait
  | produce
  | stringify
  | parse
  | save
  deriving DecidableEq

inductive CallError where
  | error (message : JsString)
  | budgetExceeded (message : JsString)
  /-- The reason of the stop signal. -/
  | stopped
  | failed (source : Source)
  deriving DecidableEq

inductive CallPhase (ν : Type) where
  /-- It waits for a load; `generation` is the one it was called in. -/
  | loading (generation : ℕ) (load : LoadRef)
  /-- `ensureLoaded` has returned the map `cp`. -/
  | loaded (generation : ℕ) (cp : ℕ)
  /-- `loadForStep` has returned. -/
  | started (cp : ℕ)
  | dispatching (cp : ℕ)
  | waiting (cp : ℕ) (taskId : JsString)
  | producing (cp : ℕ)
  | produced (cp : ℕ) (value : ν)
  /-- It waits for its save. -/
  | saving (result : Option JsString)
  | saved (result : Option JsString)
  | resolved (result : Option JsString)
  /-- `isResuming` has returned. -/
  | answered (resuming : Bool)
  | rejected (err : CallError)

/-- A call of `runStep`, `memoize` or `isResuming`. -/
structure StepCall (ν : Type) where
  kind : CallKind
  name : JsString
  phase : CallPhase ν

/-- A step that was written into the map `cp`. -/
structure Write where
  cp : ℕ
  call : ℕ
  name : JsString
  entry : StepCheckpoint

/-- A record on its way to the store, with what had been written and charged then. -/
structure Snapshot where
  record : Checkpoint
  written : ℕ
  ledger : List Charge

inductive JobKind where
  /-- A save, and the call that waits for it. -/
  | save (owner : Option ℕ)
  | wipe
  deriving DecidableEq

inductive JobPhase where
  | queued
  | loading (load : LoadRef)
  /-- `store.save` was called; `acted` says whether it has taken effect. -/
  | writing (snapshot : Snapshot) (acted : Bool)
  /-- `store.clear` was called. -/
  | clearing (acted : Bool)

structure Job where
  id : ℕ
  kind : JobKind
  phase : JobPhase

/-- A call of `store.save` or `store.clear`, and the job that made it. -/
structure StoreCall where
  job : ℕ
  record : Option Checkpoint

/-- A `WorkflowOrchestrator` and its store. -/
structure Orchestrator (ν : Type) where
  store : Option Checkpoint
  budget : WorkflowBudget
  totals : RunningTotals
  stop : Option WorkflowStop
  maps : ℕ → Checkpoint
  /-- The map `this.checkpoint` is; the next one gets the next number. -/
  checkpoint : ℕ
  loading : Option LoadRef
  loads : ℕ → Load
  loadCount : ℕ
  jobs : List Job
  jobCount : ℕ
  cleared : Bool
  generation : ℕ
  /-- The stop signal has aborted. -/
  aborted : Bool
  calls : ℕ → Option (StepCall ν)
  callCount : ℕ
  -- history: the calls whose `dispatch()` or `produce()` began
  begun : List ℕ
  -- history: the steps written
  writes : List Write
  -- history: how many of them the record in the store was taken after
  flushed : ℕ
  -- history: the calls to the store
  storeCalls : List StoreCall
  -- history: the calls of `onStopped` since the last reset
  reports : List WorkflowStop
  -- history: the record this instance restored, and what was restored of its spend
  restoredRecord : Option Checkpoint
  restored : SpendTotals
  -- history: what this instance was charged since the last reset, and what the charges
  -- behind the restored spend and behind the record in the store were
  charges : List Charge
  inherited : List Charge
  storeLedger : List Charge

/-- A fresh instance on a store. -/
def Orchestrator.fresh {ν : Type} (budget : WorkflowBudget) (store : Option Checkpoint)
    (storeLedger : List Charge) : Orchestrator ν where
  store := store
  budget := budget
  totals := 0
  stop := none
  maps := fun _ => .empty
  checkpoint := 0
  loading := none
  loads := fun _ => ⟨0, .reading⟩
  loadCount := 0
  jobs := []
  jobCount := 0
  cleared := false
  generation := 0
  aborted := false
  calls := fun _ => none
  callCount := 0
  begun := []
  writes := []
  flushed := 0
  storeCalls := []
  reports := []
  restoredRecord := none
  restored := 0
  charges := []
  inherited := []
  storeLedger := storeLedger

namespace Orchestrator

variable [Arithmetic] {ν : Type} (opts : OrchestratorOptions ν)

/-! ### Spend -/

/-- `checkStop()`. -/
def checkStop (s : Orchestrator ν) : Orchestrator ν :=
  if s.stop.isSome then s
  else
    match overBudgetReason s.totals s.budget with
    | none => s
    | some detail =>
        { s with
          stop := some ⟨detail, s.totals⟩
          reports := s.reports ++ [⟨detail, s.totals⟩] }

/-- `addSpend(delta)`. -/
def addSpend (s : Orchestrator ν) (delta : SpendDelta) : Orchestrator ν :=
  { s with totals := s.totals.add (cleanSpendTotals delta) }.checkStop

/-- `account(result)`. -/
def account (s : Orchestrator ν) (result : JsString ⊕ ν) : Orchestrator ν :=
  match opts.spendOf result with
  | none => s
  | some delta => s.addSpend delta

/-- What a result costs. -/
def costOf (result : JsString ⊕ ν) : SpendTotals :=
  match opts.spendOf result with
  | none => 0
  | some delta => cleanSpendTotals delta

def charge (s : Orchestrator ν) (step : Option JsString) (amount : SpendTotals) :
    Orchestrator ν :=
  { s with charges := s.charges ++ [⟨step, amount⟩] }

/-! ### Loading -/

/-- The start of `ensureLoaded()`: the promise it waits for. -/
def ensureLoaded (s : Orchestrator ν) : Orchestrator ν × LoadRef :=
  match s.loading with
  | some ref => (s, ref)
  | none =>
      ({ s with
        loads := fun x => if x = s.loadCount then ⟨s.generation, .reading⟩ else s.loads x
        loadCount := s.loadCount + 1
        loading := some (.load s.loadCount) }, .load s.loadCount)

def setLoad (s : Orchestrator ν) (l : ℕ) (phase : LoadPhase) : Orchestrator ν :=
  { s with loads := fun x => if x = l then ⟨(s.loads x).generation, phase⟩ else s.loads x }

/-- Whether a promise has settled, and how. -/
def outcome (s : Orchestrator ν) : LoadRef → Option Bool
  | .reset => some true
  | .load l =>
      match (s.loads l).phase with
      | .settled ok => some ok
      | _ => none

/-- The `catch` of a load that failed: only the current one fails its callers. -/
def loadFailed (s : Orchestrator ν) (l : ℕ) : Orchestrator ν :=
  if s.loading = some (.load l) then { s.setLoad l (.settled false) with loading := none }
  else s.setLoad l (.settled true)

/-- A saved stop is kept while the totals still reach a ceiling of the current budget. -/
def keepStop (s : Orchestrator ν) (saved : PersistedSpend) : Orchestrator ν :=
  match overBudgetReason s.totals s.budget with
  | none => s
  | some detail =>
      if s.stop.isNone && saved.stop.isSome then { s with stop := some ⟨detail, s.totals⟩ } else s

/-- The spend and the stop of a loaded record, added to the instance. -/
def restore (s : Orchestrator ν) (record : Checkpoint) (ledger : List Charge)
    (saved : PersistedSpend) : Orchestrator ν :=
  ({ s with
    totals := s.totals.add saved.totals
    restoredRecord := some record
    restored := saved.totals
    inherited := ledger }.keepStop saved).checkStop

/-- The reserved entry's `result`. -/
def spendText (record : Option Checkpoint) : Option JsString :=
  (record.bind fun r => r.get spendEntry).bind StepCheckpoint.result

/-- The rest of `load()`, once the store has answered with a record. -/
def loadReturned (s : Orchestrator ν) (l : ℕ) (record : Option Checkpoint)
    (ledger : List Charge) : Orchestrator ν :=
  if (s.loads l).generation ≠ s.generation then s.setLoad l (.settled true)
  else
    let s := { s with
      maps := fun x => if x = s.checkpoint + 1 then (record.getD .empty).erase spendEntry
        else s.maps x
      checkpoint := s.checkpoint + 1 }
    match parsePersistedSpend (spendText record) with
    | none => s.loadFailed l
    | some saved => (s.restore (record.getD .empty) ledger saved).setLoad l (.settled true)

/-! ### Saving -/

def enqueue (s : Orchestrator ν) (kind : JobKind) : Orchestrator ν :=
  { s with
    jobs := s.jobs ++ [⟨s.jobCount, kind, .queued⟩]
    jobCount := s.jobCount + 1 }

/-- `persist()`. -/
def persist (s : Orchestrator ν) (owner : Option ℕ) : Orchestrator ν := s.enqueue (.save owner)

/-- The steps in memory. -/
def steps (s : Orchestrator ν) : Checkpoint := s.maps s.checkpoint

/-- `snapshot()`. -/
def snapshot (s : Orchestrator ν) : Snapshot where
  record := s.steps.set spendEntry
    ⟨spendEntry, some (persistedText s.totals (s.stop.map WorkflowStop.detail))⟩
  written := s.writes.length
  ledger := s.inherited ++ s.charges

/-! ### Calls -/

def newCall (s : Orchestrator ν) (call : StepCall ν) : Orchestrator ν :=
  { s with
    calls := fun x => if x = s.callCount then some call else s.calls x
    callCount := s.callCount + 1 }

def setPhase (s : Orchestrator ν) (c : ℕ) (phase : CallPhase ν) : Orchestrator ν :=
  { s with
    calls := fun x => if x = c then (s.calls x).map fun call => { call with phase := phase }
      else s.calls x }

def reservedError : CallError :=
  .error (js "step name \"" ++ spendEntry ++ js "\" is reserved for the workflow spend")

def clearedError (name : JsString) : CallError :=
  .error (js "step \"" ++ name
    ++ js "\" not started: the workflow checkpoint was cleared while it waited to load")

/-- `runStep`, `memoize` or `isResuming`, up to its first wait. -/
def startCall (s : Orchestrator ν) (kind : CallKind) (name : JsString) : Orchestrator ν :=
  if kind ≠ .isResuming ∧ name = spendEntry then
    s.newCall ⟨kind, name, .rejected reservedError⟩
  else
    let (s', ref) := s.ensureLoaded
    s'.newCall ⟨kind, name, .loading s.generation ref⟩

/-- The end of `ensureLoaded()` in a call. -/
def callLoaded (s : Orchestrator ν) (c : ℕ) (kind : CallKind) (generation : ℕ) :
    Bool → Orchestrator ν
  | false => s.setPhase c (.rejected (.failed .load))
  | true =>
      if kind = .isResuming then s.setPhase c (.answered (!s.steps.entries.isEmpty))
      else s.setPhase c (.loaded generation s.checkpoint)

/-- The end of `loadForStep(name)`. -/
def callChecked (s : Orchestrator ν) (c : ℕ) (name : JsString) (generation cp : ℕ) :
    Orchestrator ν :=
  if generation ≠ s.generation then s.setPhase c (.rejected (clearedError name))
  else s.setPhase c (.started cp)

/-- `assertDispatchAllowed()`. -/
def dispatchRefused (s : Orchestrator ν) : Option CallError :=
  if s.aborted then some .stopped
  else s.stop.map fun stop =>
    .budgetExceeded (js "workflow " ++ opts.workflowId ++ js " stopped: " ++ stop.detail)

/-- What a call resolves with when its step is there already. -/
def replay (kind : CallKind) (result : Option JsString) : CallPhase ν :=
  match kind with
  | .memoize =>
      match result.bind Json.parse with
      | none => .rejected (.failed .parse)
      | some _ => .resolved result
  | _ => .resolved result

/-- `runStep` and `memoize` from their look at the checkpoint to their next wait. -/
def enter (s : Orchestrator ν) (c : ℕ) (kind : CallKind) (name : JsString) (cp : ℕ) :
    Orchestrator ν :=
  match lookup (s.maps cp) name with
  | .own e => s.setPhase c (replay kind e.result)
  | .inherited => s.setPhase c (replay kind none)
  | .absent =>
      match s.dispatchRefused opts with
      | some err => s.setPhase c (.rejected err)
      | none =>
          { s.setPhase c (if kind = .memoize then .producing cp else .dispatching cp) with
            begun := s.begun ++ [c] }

/-- `cp[name] = { taskId, result }`. -/
def writeStep (s : Orchestrator ν) (c : ℕ) (name : JsString) (cp : ℕ) (entry : StepCheckpoint) :
    Orchestrator ν :=
  { s with
    maps := fun x => if x = cp then (s.maps x).set name entry else s.maps x
    writes := s.writes ++ [⟨cp, c, name, entry⟩] }

/-- The rest of `runStep` once it has a result, and of `memoize`. -/
def saveStep (s : Orchestrator ν) (c : ℕ) (result : Option JsString) : Orchestrator ν :=
  (s.persist (some c)).setPhase c (.saving result)

/-- `runStep` after its dispatch. -/
def dispatched (s : Orchestrator ν) (c : ℕ) (name : JsString) (cp : ℕ) :
    Except Unit JsString → Orchestrator ν
  | .error () => s.setPhase c (.rejected (.failed .dispatch))
  | .ok taskId =>
      match findByTaskId (s.maps cp) taskId with
      | some result => (s.writeStep c name cp ⟨taskId, some result⟩).saveStep c (some result)
      | none => s.setPhase c (.waiting cp taskId)

/-- `runStep` after its wait. -/
def waited (s : Orchestrator ν) (c : ℕ) (name : JsString) (cp : ℕ) (taskId : JsString) :
    Except Unit JsString → Orchestrator ν
  | .error () => s.setPhase c (.rejected (.failed .wait))
  | .ok result =>
      ((((s.charge (some name) (costOf opts (.inl result))).account opts (.inl result)).writeStep c
        name cp ⟨taskId, some result⟩).saveStep c (some result))

/-- `memoize` after its producer. -/
def continued (s : Orchestrator ν) (c : ℕ) (name : JsString) (cp : ℕ) (value : ν) :
    Orchestrator ν :=
  let s := s.charge (some name) (costOf opts (.inr value))
  match opts.stringify value with
  | none => s.setPhase c (.rejected (.failed .stringify))
  | some result =>
      ((s.writeStep c name cp ⟨js "memoize:" ++ name, result⟩).account opts (.inr value)).saveStep
        c result

/-- `recordSpend(delta)`. -/
def recordSpend (s : Orchestrator ν) (delta : SpendDelta) : Orchestrator ν :=
  ((s.charge none (cleanSpendTotals delta)).addSpend delta).persist none

/-! ### The save chain -/

/-- The reset of `clear()`. -/
def reset (s : Orchestrator ν) : Orchestrator ν :=
  { s with
    generation := s.generation + 1
    cleared := true
    maps := fun x => if x = s.checkpoint + 1 then .empty else s.maps x
    checkpoint := s.checkpoint + 1
    totals := 0
    stop := none
    loading := some .reset
    reports := []
    restoredRecord := none
    restored := 0
    charges := []
    inherited := [] }

/-- The head job has settled; `ok` says how. -/
def jobSettled (s : Orchestrator ν) (job : Job) (rest : List Job) (ok : Bool) : Orchestrator ν :=
  let s := { s with jobs := rest }
  match job.kind with
  | .save (some c) =>
      if ok then
        match s.calls c with
        | some ⟨_, _, .saving result⟩ => s.setPhase c (.saved result)
        | _ => s
      else s.setPhase c (.rejected (.failed .save))
  | _ => s

/-- The head job begins. -/
def jobStarted (s : Orchestrator ν) (job : Job) (rest : List Job) : Orchestrator ν :=
  match job.kind with
  | .save _ =>
      let (s', ref) := s.ensureLoaded
      { s' with jobs := { job with phase := .loading ref } :: rest }
  | .wipe =>
      { s.reset with
        jobs := { job with phase := .clearing false } :: rest
        storeCalls := s.storeCalls ++ [⟨job.id, none⟩] }

/-- A save goes on after `ensureLoaded()`. -/
def jobLoaded (s : Orchestrator ν) (job : Job) (rest : List Job) : Bool → Orchestrator ν
  | false => s.jobSettled job rest false
  | true =>
      if s.cleared ∧ s.steps.entries = [] then s.jobSettled job rest true
      else
        { s with
          jobs := { job with phase := .writing s.snapshot false } :: rest
          storeCalls := s.storeCalls ++ [⟨job.id, some s.snapshot.record⟩] }

/-- The store does what the head job asked of it. -/
def storeActed (s : Orchestrator ν) (job : Job) (rest : List Job) : Orchestrator ν :=
  match job.phase with
  | .writing snap _ =>
      { s with
        jobs := { job with phase := .writing snap true } :: rest
        store := some snap.record
        flushed := snap.written
        storeLedger := snap.ledger }
  | .clearing _ =>
      { s with
        jobs := { job with phase := .clearing true } :: rest
        store := none
        storeLedger := [] }
  | _ => s

/-- The stop signal aborts: producers lose to it. -/
def signalStop (s : Orchestrator ν) : Orchestrator ν :=
  { s with
    aborted := true
    calls := fun x => (s.calls x).map fun call =>
      match call.phase with
      | .producing _ => { call with phase := .rejected .stopped }
      | _ => call }

end Orchestrator

inductive OrchestratorEvent (ν : Type) where
  | call (kind : CallKind) (name : JsString)
  | recordSpend (delta : SpendDelta)
  | clear
  | storeReads (l : ℕ)
  | loadReturns (l : ℕ)
  | loadThrows (l : ℕ)
  | loaded (c : ℕ)
  | checked (c : ℕ)
  | enters (c : ℕ)
  | dispatched (c : ℕ) (r : Except Unit JsString)
  | waited (c : ℕ) (r : Except Unit JsString)
  | produced (c : ℕ) (r : Except Unit ν)
  | continues (c : ℕ)
  | jobStarts
  | jobLoaded
  | storeActs
  | jobReturns
  | jobThrows
  | finishes (c : ℕ)
  | signalStop
  | crash (budget : WorkflowBudget)

namespace Orchestrator

variable [Arithmetic] {ν : Type} (opts : OrchestratorOptions ν)

def step (s : Orchestrator ν) : OrchestratorEvent ν → Option (Orchestrator ν)
  | .call kind name => some (s.startCall kind name)
  | .recordSpend delta => some (s.recordSpend delta)
  | .clear => some (s.enqueue .wipe)
  | .storeReads l =>
      match (s.loads l).phase with
      | .reading =>
          if l < s.loadCount then some (s.setLoad l (.read s.store s.storeLedger)) else none
      | _ => none
  | .loadReturns l =>
      match (s.loads l).phase with
      | .read record ledger => some (s.loadReturned l record ledger)
      | _ => none
  | .loadThrows l =>
      match (s.loads l).phase with
      | .reading => if l < s.loadCount then some (s.loadFailed l) else none
      | _ => none
  | .loaded c =>
      match s.calls c with
      | some ⟨kind, _, .loading generation ref⟩ =>
          (s.outcome ref).map (s.callLoaded c kind generation)
      | _ => none
  | .checked c =>
      match s.calls c with
      | some ⟨_, name, .loaded generation cp⟩ => some (s.callChecked c name generation cp)
      | _ => none
  | .enters c =>
      match s.calls c with
      | some ⟨kind, name, .started cp⟩ => some (s.enter opts c kind name cp)
      | _ => none
  | .dispatched c r =>
      match s.calls c with
      | some ⟨_, name, .dispatching cp⟩ => some (s.dispatched c name cp r)
      | _ => none
  | .waited c r =>
      match s.calls c with
      | some ⟨_, name, .waiting cp taskId⟩ => some (s.waited opts c name cp taskId r)
      | _ => none
  | .produced c r =>
      match s.calls c, r with
      | some ⟨_, _, .producing cp⟩, .ok value => some (s.setPhase c (.produced cp value))
      | some ⟨_, _, .producing _⟩, .error () =>
          some (s.setPhase c (.rejected (.failed .produce)))
      | _, _ => none
  | .continues c =>
      match s.calls c with
      | some ⟨_, name, .produced cp value⟩ => some (s.continued opts c name cp value)
      | _ => none
  | .jobStarts =>
      match s.jobs with
      | ⟨id, kind, .queued⟩ :: rest => some (s.jobStarted ⟨id, kind, .queued⟩ rest)
      | _ => none
  | .jobLoaded =>
      match s.jobs with
      | ⟨id, kind, .loading ref⟩ :: rest =>
          (s.outcome ref).map (s.jobLoaded ⟨id, kind, .loading ref⟩ rest)
      | _ => none
  | .storeActs =>
      match s.jobs with
      | ⟨id, kind, .writing snap false⟩ :: rest =>
          some (s.storeActed ⟨id, kind, .writing snap false⟩ rest)
      | ⟨id, kind, .clearing false⟩ :: rest =>
          some (s.storeActed ⟨id, kind, .clearing false⟩ rest)
      | _ => none
  | .jobReturns =>
      match s.jobs with
      | ⟨id, kind, .writing snap true⟩ :: rest =>
          some (s.jobSettled ⟨id, kind, .writing snap true⟩ rest true)
      | ⟨id, kind, .clearing true⟩ :: rest =>
          some (s.jobSettled ⟨id, kind, .clearing true⟩ rest true)
      | _ => none
  | .jobThrows =>
      match s.jobs with
      | ⟨id, kind, .writing snap false⟩ :: rest =>
          some (s.jobSettled ⟨id, kind, .writing snap false⟩ rest false)
      | ⟨id, kind, .clearing false⟩ :: rest =>
          some (s.jobSettled ⟨id, kind, .clearing false⟩ rest false)
      | _ => none
  | .finishes c =>
      match s.calls c with
      | some ⟨_, _, .saved result⟩ => some (s.setPhase c (.resolved result))
      | _ => none
  | .signalStop => some s.signalStop
  | .crash budget => some (fresh budget s.store s.storeLedger)

end Orchestrator

end Kaiban
