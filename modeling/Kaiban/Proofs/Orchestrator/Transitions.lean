/-
What one step of the orchestrator can do.

`Transition` names the ways a step can go, with what each finds in the state, and
`transition` says there are no others, so that a proof about steps is a case split on it.
The lemmas above it say, for each operation, which fields it touches or which of its
branches is taken.  A fact about other fields then holds after it as it stands.
-/
import Kaiban.Orchestrator
import Kaiban.Lib.Steps

open JsString

namespace Kaiban.Orchestrator

variable {ν : Type} {opts : OrchestratorOptions ν} {s s' : Orchestrator ν}

/-! ### Spend -/

section

variable [Arithmetic]

/-- `checkStop` sets the stop and reports it, when there is none and a ceiling is reached. -/
theorem checkStop_cases (s : Orchestrator ν) :
    ((s.stop.isSome = true ∨ overBudgetReason s.totals s.budget = none) ∧ s.checkStop = s) ∨
    ∃ detail, s.stop = none ∧ overBudgetReason s.totals s.budget = some detail ∧
      s.checkStop = { s with
        stop := some ⟨detail, s.totals⟩
        reports := s.reports ++ [⟨detail, s.totals⟩] } := by
  unfold checkStop
  cases hstop : s.stop with
  | some stop => exact .inl ⟨.inl rfl, by simp⟩
  | none =>
      cases hover : overBudgetReason s.totals s.budget with
      | none => exact .inl ⟨.inr rfl, by simp⟩
      | some detail => exact .inr ⟨detail, rfl, rfl, by simp⟩

theorem checkStop_frame (s : Orchestrator ν) :
    ∃ stop reports, s.checkStop = { s with stop := stop, reports := reports } := by
  rcases s.checkStop_cases with ⟨-, h⟩ | ⟨detail, -, -, h⟩
  · exact ⟨s.stop, s.reports, h⟩
  · exact ⟨_, _, h⟩

theorem addSpend_frame (s : Orchestrator ν) (delta : SpendDelta) :
    ∃ stop reports, s.addSpend delta = { s with
      totals := s.totals.add (cleanSpendTotals delta)
      stop := stop
      reports := reports } :=
  checkStop_frame { s with totals := s.totals.add (cleanSpendTotals delta) }

theorem account_frame (opts : OrchestratorOptions ν) (s : Orchestrator ν)
    (result : JsString ⊕ ν) :
    ∃ totals stop reports, s.account opts result = { s with
      totals := totals
      stop := stop
      reports := reports } := by
  unfold account
  cases opts.spendOf result with
  | none => exact ⟨s.totals, s.stop, s.reports, rfl⟩
  | some delta => exact ⟨_, s.addSpend_frame delta⟩

theorem recordSpend_frame (s : Orchestrator ν) (delta : SpendDelta) :
    ∃ stop reports, s.recordSpend delta = { s with
      totals := s.totals.add (cleanSpendTotals delta)
      stop := stop
      reports := reports
      charges := s.charges ++ [⟨none, cleanSpendTotals delta⟩]
      jobs := s.jobs ++ [⟨s.jobCount, .save none, .queued⟩]
      jobCount := s.jobCount + 1 } := by
  unfold recordSpend
  obtain ⟨stop, reports, h⟩ := (s.charge none (cleanSpendTotals delta)).addSpend_frame delta
  rw [h]
  exact ⟨stop, reports, rfl⟩

end

/-! ### Loads -/

theorem ensureLoaded_cases (s : Orchestrator ν) :
    (∃ ref, s.loading = some ref ∧ s.ensureLoaded = (s, ref)) ∨
    (s.loading = none ∧ s.ensureLoaded = ({ s with
        loads := fun x => if x = s.loadCount then ⟨s.generation, .reading⟩ else s.loads x
        loadCount := s.loadCount + 1
        loading := some (.load s.loadCount) }, .load s.loadCount)) := by
  unfold ensureLoaded
  cases h : s.loading with
  | none => exact .inr ⟨rfl, rfl⟩
  | some ref => exact .inl ⟨ref, rfl, rfl⟩

/-- What is waited for is the current load. -/
theorem ensureLoaded_loading (s : Orchestrator ν) :
    s.ensureLoaded.1.loading = some s.ensureLoaded.2 := by
  rcases s.ensureLoaded_cases with ⟨ref, hloading, h⟩ | ⟨-, h⟩
  · rw [h]
    exact hloading
  · rw [h]

theorem ensureLoaded_frame (s : Orchestrator ν) :
    ∃ loads count loading, s.ensureLoaded.1 = { s with
      loads := loads
      loadCount := count
      loading := loading } := by
  rcases s.ensureLoaded_cases with ⟨ref, -, h⟩ | ⟨-, h⟩
  · exact ⟨s.loads, s.loadCount, s.loading, by rw [h]⟩
  · exact ⟨_, _, _, by rw [h]⟩

theorem loadFailed_cases (s : Orchestrator ν) (l : ℕ) :
    (s.loading = some (.load l) ∧
      s.loadFailed l = { s.setLoad l (.settled false) with loading := none }) ∨
    (s.loading ≠ some (.load l) ∧ s.loadFailed l = s.setLoad l (.settled true)) := by
  unfold loadFailed
  by_cases h : s.loading = some (.load l)
  · exact .inl ⟨h, if_pos h⟩
  · exact .inr ⟨h, if_neg h⟩

theorem loadFailed_frame (s : Orchestrator ν) (l : ℕ) :
    ∃ loads loading, s.loadFailed l = { s with loads := loads, loading := loading } := by
  rcases s.loadFailed_cases l with ⟨-, h⟩ | ⟨-, h⟩
  · exact ⟨_, _, h⟩
  · exact ⟨_, s.loading, h⟩

/-- The map a load makes of its record. -/
def withSteps (s : Orchestrator ν) (record : Option Checkpoint) : Orchestrator ν :=
  { s with
    maps := fun x => if x = s.checkpoint + 1 then (record.getD .empty).erase spendEntry
      else s.maps x
    checkpoint := s.checkpoint + 1 }

section

variable [Arithmetic]

/-- A load that returns is out of date, finds a broken spend entry, or is restored. -/
theorem loadReturned_cases (s : Orchestrator ν) (l : ℕ) (record : Option Checkpoint)
    (ledger : List Charge) :
    ((s.loads l).generation ≠ s.generation ∧
      s.loadReturned l record ledger = s.setLoad l (.settled true)) ∨
    ((s.loads l).generation = s.generation ∧ parsePersistedSpend (spendText record) = none ∧
      s.loadReturned l record ledger = (s.withSteps record).loadFailed l) ∨
    ∃ saved, (s.loads l).generation = s.generation ∧
      parsePersistedSpend (spendText record) = some saved ∧
      s.loadReturned l record ledger
        = ((s.withSteps record).restore (record.getD .empty) ledger saved).setLoad l
            (.settled true) := by
  unfold loadReturned
  by_cases hgen : (s.loads l).generation = s.generation
  · rw [if_neg (by simpa using hgen)]
    cases hparse : parsePersistedSpend (spendText record) with
    | none => exact .inr (.inl ⟨hgen, rfl, rfl⟩)
    | some saved => exact .inr (.inr ⟨saved, hgen, rfl, rfl⟩)
  · rw [if_pos hgen]
    exact .inl ⟨hgen, rfl⟩

/-- A saved stop is kept, or nothing is done. -/
theorem keepStop_cases (s : Orchestrator ν) (saved : PersistedSpend) :
    ((s.stop.isSome = true ∨ saved.stop = none ∨ overBudgetReason s.totals s.budget = none) ∧
      s.keepStop saved = s) ∨
    ∃ detail, s.stop = none ∧ saved.stop.isSome = true ∧
      overBudgetReason s.totals s.budget = some detail ∧
      s.keepStop saved = { s with stop := some ⟨detail, s.totals⟩ } := by
  unfold keepStop
  cases hover : overBudgetReason s.totals s.budget with
  | none => exact .inl ⟨.inr (.inr rfl), rfl⟩
  | some detail =>
      cases hstop : s.stop with
      | some stop => exact .inl ⟨.inl rfl, by simp⟩
      | none =>
          cases hsaved : saved.stop with
          | none => exact .inl ⟨.inr (.inl rfl), by simp⟩
          | some text => exact .inr ⟨detail, rfl, rfl, rfl, by simp⟩

theorem restore_frame (s : Orchestrator ν) (record : Checkpoint) (ledger : List Charge)
    (saved : PersistedSpend) :
    ∃ stop reports, s.restore record ledger saved = { s with
      totals := s.totals.add saved.totals
      restoredRecord := some record
      restored := saved.totals
      inherited := ledger
      stop := stop
      reports := reports } := by
  unfold restore
  rcases keepStop_cases _ saved with ⟨-, h⟩ | ⟨detail, -, -, -, h⟩ <;> rw [h]
  · exact checkStop_frame _
  · obtain ⟨stop, reports, h'⟩ := checkStop_frame (ν := ν) _
    exact ⟨stop, reports, h'⟩

end

/-! ### Calls -/

theorem startCall_cases (s : Orchestrator ν) (kind : CallKind) (name : JsString) :
    (kind ≠ .isResuming ∧ name = spendEntry ∧
      s.startCall kind name = s.newCall ⟨kind, name, .rejected reservedError⟩) ∨
    ((kind = .isResuming ∨ name ≠ spendEntry) ∧ s.startCall kind name
      = s.ensureLoaded.1.newCall ⟨kind, name, .loading s.generation s.ensureLoaded.2⟩) := by
  unfold startCall
  by_cases h : kind ≠ .isResuming ∧ name = spendEntry
  · exact .inl ⟨h.1, h.2, if_pos h⟩
  · exact .inr ⟨by tauto, if_neg h⟩

/-- Only the phase of one call changes. -/
theorem callLoaded_cases (s : Orchestrator ν) (c : ℕ) (kind : CallKind) (generation : ℕ)
    (ok : Bool) :
    (ok = false ∧ s.callLoaded c kind generation ok = s.setPhase c (.rejected (.failed .load))) ∨
    (ok = true ∧ kind = .isResuming ∧
      ∃ b, s.callLoaded c kind generation ok = s.setPhase c (.answered b)) ∨
    (ok = true ∧ kind ≠ .isResuming ∧
      s.callLoaded c kind generation ok = s.setPhase c (.loaded generation s.checkpoint)) := by
  cases ok with
  | false => exact .inl ⟨rfl, rfl⟩
  | true =>
      unfold callLoaded
      by_cases h : kind = .isResuming
      · exact .inr (.inl ⟨rfl, h, _, if_pos h⟩)
      · exact .inr (.inr ⟨rfl, h, if_neg h⟩)

theorem callChecked_cases (s : Orchestrator ν) (c : ℕ) (name : JsString) (generation cp : ℕ) :
    (generation ≠ s.generation ∧ s.callChecked c name generation cp
      = s.setPhase c (.rejected (clearedError name))) ∨
    (generation = s.generation ∧
      s.callChecked c name generation cp = s.setPhase c (.started cp)) := by
  unfold callChecked
  by_cases h : generation = s.generation
  · exact .inr ⟨h, if_neg (by simpa using h)⟩
  · exact .inl ⟨h, if_pos h⟩

theorem dispatchRefused_eq_none {s : Orchestrator ν} :
    s.dispatchRefused opts = none ↔ s.aborted = false ∧ s.stop = none := by
  unfold dispatchRefused
  cases s.aborted <;> simp

/-- A call that looks at its map replays a step, is refused, or begins its work. -/
theorem enter_cases (opts : OrchestratorOptions ν) (s : Orchestrator ν) (c : ℕ) (kind : CallKind)
    (name : JsString) (cp : ℕ) :
    (∃ e, (s.maps cp).get name = some e ∧
      s.enter opts c kind name cp = s.setPhase c (replay kind e.result)) ∨
    ((s.maps cp).get name = none ∧ name ∈ inheritedNames ∧
      s.enter opts c kind name cp = s.setPhase c (replay kind none)) ∨
    (∃ err, (s.maps cp).get name = none ∧ name ∉ inheritedNames ∧
      s.dispatchRefused opts = some err ∧
      s.enter opts c kind name cp = s.setPhase c (.rejected err)) ∨
    ((s.maps cp).get name = none ∧ name ∉ inheritedNames ∧ s.aborted = false ∧ s.stop = none ∧
      s.enter opts c kind name cp =
        { s.setPhase c (if kind = .memoize then .producing cp else .dispatching cp) with
          begun := s.begun ++ [c] }) := by
  cases hget : (s.maps cp).get name with
  | some e =>
      have hlook : lookup (s.maps cp) name = .own e := by simp [lookup, hget]
      exact .inl ⟨e, rfl, by simp only [enter, hlook]⟩
  | none =>
      by_cases hinh : name ∈ inheritedNames
      · have hlook : lookup (s.maps cp) name = .inherited := by simp [lookup, hget, hinh]
        exact .inr (.inl ⟨rfl, hinh, by simp only [enter, hlook]⟩)
      · have hlook : lookup (s.maps cp) name = .absent := by simp [lookup, hget, hinh]
        cases href : s.dispatchRefused opts with
        | some err =>
            exact .inr (.inr (.inl ⟨err, rfl, hinh, rfl, by simp only [enter, hlook, href]⟩))
        | none =>
            obtain ⟨hrun, hstop⟩ := dispatchRefused_eq_none.mp href
            refine .inr (.inr (.inr ⟨rfl, hinh, hrun, hstop, ?_⟩))
            simp only [enter, hlook, href]

/-- A result is replayed, unless it is a producer's and is no JSON text. -/
theorem replay_cases (kind : CallKind) (result : Option JsString) :
    ((kind = .memoize → (result.bind Json.parse).isSome = true) ∧
      (replay kind result : CallPhase ν) = .resolved result) ∨
    (kind = .memoize ∧ result.bind Json.parse = none ∧
      (replay kind result : CallPhase ν) = .rejected (.failed .parse)) := by
  cases kind with
  | memoize =>
      unfold replay
      cases hparse : result.bind Json.parse with
      | none => exact .inr ⟨rfl, rfl, rfl⟩
      | some v => exact .inl ⟨fun _ => rfl, rfl⟩
  | _ => exact .inl ⟨fun h => absurd h (by simp), rfl⟩

/-- A step written, and the job that saves it queued. -/
def stored (s : Orchestrator ν) (c : ℕ) (name : JsString) (cp : ℕ) (entry : StepCheckpoint) :
    Orchestrator ν :=
  (s.writeStep c name cp entry).saveStep c entry.result

theorem dispatched_cases (s : Orchestrator ν) (c : ℕ) (name : JsString) (cp : ℕ)
    (r : Except Unit JsString) :
    (r = .error () ∧ s.dispatched c name cp r = s.setPhase c (.rejected (.failed .dispatch))) ∨
    (∃ taskId result, r = .ok taskId ∧ findByTaskId (s.maps cp) taskId = some result ∧
      s.dispatched c name cp r = s.stored c name cp ⟨taskId, some result⟩) ∨
    (∃ taskId, r = .ok taskId ∧ findByTaskId (s.maps cp) taskId = none ∧
      s.dispatched c name cp r = s.setPhase c (.waiting cp taskId)) := by
  cases r with
  | error u => exact .inl ⟨rfl, rfl⟩
  | ok taskId =>
      cases hfind : findByTaskId (s.maps cp) taskId with
      | some result =>
          refine .inr (.inl ⟨taskId, result, rfl, hfind, ?_⟩)
          simp only [dispatched, hfind]
          rfl
      | none =>
          refine .inr (.inr ⟨taskId, rfl, hfind, ?_⟩)
          simp only [dispatched, hfind]

section

variable [Arithmetic]

/-- A result charged and accounted. -/
def paid (opts : OrchestratorOptions ν) (s : Orchestrator ν) (name : JsString)
    (result : JsString ⊕ ν) : Orchestrator ν :=
  (s.charge (some name) (costOf opts result)).account opts result

theorem paid_frame (opts : OrchestratorOptions ν) (s : Orchestrator ν) (name : JsString)
    (result : JsString ⊕ ν) :
    ∃ totals stop reports, s.paid opts name result = { s with
      totals := totals
      stop := stop
      reports := reports
      charges := s.charges ++ [⟨some name, costOf opts result⟩] } := by
  obtain ⟨totals, stop, reports, h⟩ :=
    account_frame opts (s.charge (some name) (costOf opts result)) result
  exact ⟨totals, stop, reports, h⟩

theorem waited_cases (opts : OrchestratorOptions ν) (s : Orchestrator ν) (c : ℕ) (name : JsString)
    (cp : ℕ) (taskId : JsString) (r : Except Unit JsString) :
    (r = .error () ∧
      s.waited opts c name cp taskId r = s.setPhase c (.rejected (.failed .wait))) ∨
    (∃ result, r = .ok result ∧ s.waited opts c name cp taskId r
      = (s.paid opts name (.inl result)).stored c name cp ⟨taskId, some result⟩) := by
  cases r with
  | error u => exact .inl ⟨rfl, rfl⟩
  | ok result => exact .inr ⟨result, rfl, rfl⟩

/-- Writing a step and accounting its value can be done in either order. -/
theorem account_writeStep (s : Orchestrator ν) (c : ℕ) (name : JsString) (cp : ℕ)
    (entry : StepCheckpoint) (result : JsString ⊕ ν) :
    (s.writeStep c name cp entry).account opts result
      = (s.account opts result).writeStep c name cp entry := by
  unfold account
  cases opts.spendOf result with
  | none => rfl
  | some delta =>
      show checkStop _ = (checkStop _).writeStep c name cp entry
      unfold checkStop
      by_cases hstop : s.stop.isSome = true
      · simp [writeStep, hstop]
      · simp only [writeStep, hstop]
        cases overBudgetReason (s.totals.add (cleanSpendTotals delta)) s.budget <;> rfl

theorem continued_cases (opts : OrchestratorOptions ν) (s : Orchestrator ν) (c : ℕ)
    (name : JsString) (cp : ℕ) (value : ν) :
    (opts.stringify value = none ∧ s.continued opts c name cp value
      = (s.charge (some name) (costOf opts (.inr value))).setPhase c
          (.rejected (.failed .stringify))) ∨
    (∃ result, opts.stringify value = some result ∧ s.continued opts c name cp value
      = (s.paid opts name (.inr value)).stored c name cp ⟨js "memoize:" ++ name, result⟩) := by
  unfold continued
  cases h : opts.stringify value with
  | none => exact .inl ⟨rfl, rfl⟩
  | some result =>
      refine .inr ⟨result, rfl, ?_⟩
      simp only [account_writeStep]
      rfl

end

/-! ### The save chain -/

theorem jobSettled_frame (s : Orchestrator ν) (job : Job) (rest : List Job) (ok : Bool) :
    ∃ calls, s.jobSettled job rest ok = { s with jobs := rest, calls := calls } := by
  unfold jobSettled
  extract_lets t
  split
  · split
    · split
      · exact ⟨_, rfl⟩
      · exact ⟨s.calls, rfl⟩
    · exact ⟨_, rfl⟩
  · exact ⟨s.calls, rfl⟩

theorem jobStarted_cases (s : Orchestrator ν) (job : Job) (rest : List Job) :
    (∃ owner, job.kind = .save owner ∧ s.jobStarted job rest = { s.ensureLoaded.1 with
      jobs := { job with phase := .loading s.ensureLoaded.2 } :: rest }) ∨
    (job.kind = .wipe ∧ s.jobStarted job rest = { s.reset with
      jobs := { job with phase := .clearing false } :: rest
      storeCalls := s.storeCalls ++ [⟨job.id, none⟩] }) := by
  unfold jobStarted
  cases h : job.kind with
  | save owner => exact .inl ⟨owner, rfl, rfl⟩
  | wipe => exact .inr ⟨rfl, rfl⟩

section

variable [Arithmetic]

theorem jobLoaded_cases (s : Orchestrator ν) (job : Job) (rest : List Job) (ok : Bool) :
    (ok = false ∧ s.jobLoaded job rest ok = s.jobSettled job rest false) ∨
    (ok = true ∧ s.cleared = true ∧ s.steps.entries = [] ∧
      s.jobLoaded job rest ok = s.jobSettled job rest true) ∨
    (ok = true ∧ ¬ (s.cleared = true ∧ s.steps.entries = []) ∧ s.jobLoaded job rest ok = { s with
      jobs := { job with phase := .writing s.snapshot false } :: rest
      storeCalls := s.storeCalls ++ [⟨job.id, some s.snapshot.record⟩] }) := by
  cases ok with
  | false => exact .inl ⟨rfl, rfl⟩
  | true =>
      unfold jobLoaded
      by_cases h : s.cleared = true ∧ s.steps.entries = []
      · exact .inr (.inl ⟨rfl, h.1, h.2, if_pos h⟩)
      · exact .inr (.inr ⟨rfl, h, if_neg h⟩)

/-! ### Transitions -/

/-- The ways a step can go. -/
inductive Transition (opts : OrchestratorOptions ν) (s : Orchestrator ν) :
    OrchestratorEvent ν → Orchestrator ν → Prop
  | called (kind : CallKind) (name : JsString) :
      Transition opts s (.call kind name) (s.startCall kind name)
  | recorded (delta : SpendDelta) : Transition opts s (.recordSpend delta) (s.recordSpend delta)
  | clearCalled : Transition opts s .clear (s.enqueue .wipe)
  | storeRead (l : ℕ) (hl : l < s.loadCount) (hp : (s.loads l).phase = .reading) :
      Transition opts s (.storeReads l) (s.setLoad l (.read s.store s.storeLedger))
  | loadReturned (l : ℕ) (record : Option Checkpoint) (ledger : List Charge)
      (hp : (s.loads l).phase = .read record ledger) :
      Transition opts s (.loadReturns l) (s.loadReturned l record ledger)
  | loadThrew (l : ℕ) (hl : l < s.loadCount) (hp : (s.loads l).phase = .reading) :
      Transition opts s (.loadThrows l) (s.loadFailed l)
  | callLoaded (c : ℕ) (kind : CallKind) (name : JsString) (generation : ℕ) (ref : LoadRef)
      (ok : Bool) (hc : s.calls c = some ⟨kind, name, .loading generation ref⟩)
      (ho : s.outcome ref = some ok) :
      Transition opts s (.loaded c) (s.callLoaded c kind generation ok)
  | callChecked (c : ℕ) (kind : CallKind) (name : JsString) (generation cp : ℕ)
      (hc : s.calls c = some ⟨kind, name, .loaded generation cp⟩) :
      Transition opts s (.checked c) (s.callChecked c name generation cp)
  | entered (c : ℕ) (kind : CallKind) (name : JsString) (cp : ℕ)
      (hc : s.calls c = some ⟨kind, name, .started cp⟩) :
      Transition opts s (.enters c) (s.enter opts c kind name cp)
  | dispatched (c : ℕ) (kind : CallKind) (name : JsString) (cp : ℕ) (r : Except Unit JsString)
      (hc : s.calls c = some ⟨kind, name, .dispatching cp⟩) :
      Transition opts s (.dispatched c r) (s.dispatched c name cp r)
  | waited (c : ℕ) (kind : CallKind) (name : JsString) (cp : ℕ) (taskId : JsString)
      (r : Except Unit JsString) (hc : s.calls c = some ⟨kind, name, .waiting cp taskId⟩) :
      Transition opts s (.waited c r) (s.waited opts c name cp taskId r)
  | produced (c : ℕ) (kind : CallKind) (name : JsString) (cp : ℕ) (value : ν)
      (hc : s.calls c = some ⟨kind, name, .producing cp⟩) :
      Transition opts s (.produced c (.ok value)) (s.setPhase c (.produced cp value))
  | notProduced (c : ℕ) (kind : CallKind) (name : JsString) (cp : ℕ)
      (hc : s.calls c = some ⟨kind, name, .producing cp⟩) :
      Transition opts s (.produced c (.error ())) (s.setPhase c (.rejected (.failed .produce)))
  | continued (c : ℕ) (kind : CallKind) (name : JsString) (cp : ℕ) (value : ν)
      (hc : s.calls c = some ⟨kind, name, .produced cp value⟩) :
      Transition opts s (.continues c) (s.continued opts c name cp value)
  | jobStarted (job : Job) (rest : List Job) (hj : s.jobs = job :: rest)
      (hp : job.phase = .queued) : Transition opts s .jobStarts (s.jobStarted job rest)
  | jobLoaded (job : Job) (rest : List Job) (ref : LoadRef) (ok : Bool)
      (hj : s.jobs = job :: rest) (hp : job.phase = .loading ref) (ho : s.outcome ref = some ok) :
      Transition opts s .jobLoaded (s.jobLoaded job rest ok)
  | saveActed (job : Job) (rest : List Job) (snap : Snapshot) (hj : s.jobs = job :: rest)
      (hp : job.phase = .writing snap false) :
      Transition opts s .storeActs { s with
        jobs := { job with phase := .writing snap true } :: rest
        store := some snap.record
        flushed := snap.written
        storeLedger := snap.ledger }
  | clearActed (job : Job) (rest : List Job) (hj : s.jobs = job :: rest)
      (hp : job.phase = .clearing false) :
      Transition opts s .storeActs { s with
        jobs := { job with phase := .clearing true } :: rest
        store := none
        storeLedger := [] }
  | jobReturned (job : Job) (rest : List Job) (hj : s.jobs = job :: rest)
      (hp : (∃ snap, job.phase = .writing snap true) ∨ job.phase = .clearing true) :
      Transition opts s .jobReturns (s.jobSettled job rest true)
  | jobThrew (job : Job) (rest : List Job) (hj : s.jobs = job :: rest)
      (hp : (∃ snap, job.phase = .writing snap false) ∨ job.phase = .clearing false) :
      Transition opts s .jobThrows (s.jobSettled job rest false)
  | finished (c : ℕ) (kind : CallKind) (name : JsString) (result : Option JsString)
      (hc : s.calls c = some ⟨kind, name, .saved result⟩) :
      Transition opts s (.finishes c) (s.setPhase c (.resolved result))
  | signalStopped : Transition opts s .signalStop s.signalStop
  | crashed (budget : WorkflowBudget) :
      Transition opts s (.crash budget) (fresh budget s.store s.storeLedger)

/-- **Every step is one of the transitions.** -/
theorem transition {e : OrchestratorEvent ν} (h : s.step opts e = some s') :
    Transition opts s e s' := by
  cases e with
  | call kind name =>
      obtain rfl := Option.some.inj h
      exact .called kind name
  | recordSpend delta =>
      obtain rfl := Option.some.inj h
      exact .recorded delta
  | clear =>
      obtain rfl := Option.some.inj h
      exact .clearCalled
  | storeReads l =>
      simp only [step] at h
      split at h
      · rename_i hp
        split at h
        · rename_i hl
          obtain rfl := Option.some.inj h
          exact .storeRead l hl hp
        · exact absurd h (by simp)
      · exact absurd h (by simp)
  | loadReturns l =>
      simp only [step] at h
      split at h
      · rename_i record ledger hp
        obtain rfl := Option.some.inj h
        exact .loadReturned l record ledger hp
      · exact absurd h (by simp)
  | loadThrows l =>
      simp only [step] at h
      split at h
      · rename_i hp
        split at h
        · rename_i hl
          obtain rfl := Option.some.inj h
          exact .loadThrew l hl hp
        · exact absurd h (by simp)
      · exact absurd h (by simp)
  | loaded c =>
      simp only [step] at h
      split at h
      · rename_i kind name generation ref hc
        obtain ⟨ok, ho, rfl⟩ := Option.map_eq_some_iff.mp h
        exact .callLoaded c kind name generation ref ok hc ho
      · exact absurd h (by simp)
  | checked c =>
      simp only [step] at h
      split at h
      · rename_i kind name generation cp hc
        obtain rfl := Option.some.inj h
        exact .callChecked c kind name generation cp hc
      · exact absurd h (by simp)
  | enters c =>
      simp only [step] at h
      split at h
      · rename_i kind name cp hc
        obtain rfl := Option.some.inj h
        exact .entered c kind name cp hc
      · exact absurd h (by simp)
  | dispatched c r =>
      simp only [step] at h
      split at h
      · rename_i kind name cp hc
        obtain rfl := Option.some.inj h
        exact .dispatched c kind name cp r hc
      · exact absurd h (by simp)
  | waited c r =>
      simp only [step] at h
      split at h
      · rename_i kind name cp taskId hc
        obtain rfl := Option.some.inj h
        exact .waited c kind name cp taskId r hc
      · exact absurd h (by simp)
  | produced c r =>
      simp only [step] at h
      split at h
      · rename_i kind name cp value hc
        obtain rfl := Option.some.inj h
        exact .produced c kind name cp value hc
      · rename_i kind name cp hc
        obtain rfl := Option.some.inj h
        exact .notProduced c kind name cp hc
      · exact absurd h (by simp)
  | continues c =>
      simp only [step] at h
      split at h
      · rename_i kind name cp value hc
        obtain rfl := Option.some.inj h
        exact .continued c kind name cp value hc
      · exact absurd h (by simp)
  | jobStarts =>
      simp only [step] at h
      split at h
      · rename_i id kind rest hj
        obtain rfl := Option.some.inj h
        exact .jobStarted _ rest hj rfl
      · exact absurd h (by simp)
  | jobLoaded =>
      simp only [step] at h
      split at h
      · rename_i id kind ref rest hj
        obtain ⟨ok, ho, rfl⟩ := Option.map_eq_some_iff.mp h
        exact .jobLoaded _ rest ref ok hj rfl ho
      · exact absurd h (by simp)
  | storeActs =>
      simp only [step] at h
      split at h
      · rename_i id kind snap rest hj
        obtain rfl := Option.some.inj h
        exact .saveActed _ rest snap hj rfl
      · rename_i id kind rest hj
        obtain rfl := Option.some.inj h
        exact .clearActed _ rest hj rfl
      · exact absurd h (by simp)
  | jobReturns =>
      simp only [step] at h
      split at h
      · rename_i id kind snap rest hj
        obtain rfl := Option.some.inj h
        exact .jobReturned _ rest hj (.inl ⟨snap, rfl⟩)
      · rename_i id kind rest hj
        obtain rfl := Option.some.inj h
        exact .jobReturned _ rest hj (.inr rfl)
      · exact absurd h (by simp)
  | jobThrows =>
      simp only [step] at h
      split at h
      · rename_i id kind snap rest hj
        obtain rfl := Option.some.inj h
        exact .jobThrew _ rest hj (.inl ⟨snap, rfl⟩)
      · rename_i id kind rest hj
        obtain rfl := Option.some.inj h
        exact .jobThrew _ rest hj (.inr rfl)
      · exact absurd h (by simp)
  | finishes c =>
      simp only [step] at h
      split at h
      · rename_i kind name result hc
        obtain rfl := Option.some.inj h
        exact .finished c kind name result hc
      · exact absurd h (by simp)
  | signalStop =>
      obtain rfl := Option.some.inj h
      exact .signalStopped
  | crash budget =>
      obtain rfl := Option.some.inj h
      exact .crashed budget

end

/-! ### A plain caller -/

/-- A caller whose results cost nothing. -/
def plainOptions : OrchestratorOptions Unit :=
  ⟨js "workflow", fun _ => none, fun _ => some (some (js "null"))⟩

/-- No ceiling. -/
def noBudget : WorkflowBudget := ⟨.finite 0, .finite 0⟩

end Kaiban.Orchestrator
