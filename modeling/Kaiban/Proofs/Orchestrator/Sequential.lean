/-
An orchestrator used by one caller at a time is a finite map.

`Doing` follows one call from its start to its end: which of the three things that can go on
is next, and what the instance and the store have meanwhile.  Every step goes to a lower rank
and some step is always possible, so a call comes to its end, and it comes to what the map
says.  What is kept between calls is kept by a restart.
-/
import Kaiban.Proofs.Orchestrator.OneCall
import Kaiban.Proofs.Budget

open JsString

namespace Kaiban.Orchestrator

attribute [local instance] Arithmetic.exact

variable {opts : OrchestratorOptions (Option Json)} {s s' : Orchestrator (Option Json)}
  {m m' : StepMap} {r : StepRequest} {e : OrchestratorEvent (Option Json)} {c : ℕ}
  {budget : WorkflowBudget}

/-! ### What the instance has -/

/-- The parts a call alone leaves as they are. -/
structure Steady (budget : WorkflowBudget) (c : ℕ) (s : Orchestrator (Option Json)) : Prop where
  others : OthersOver c s
  running : s.stop = none ∧ s.aborted = false ∧ s.cleared = false
  budget : s.budget = budget
  count : s.callCount = c + 1

/-- The instance has loaded the steps and the spend of the map. -/
structure Loaded (budget : WorkflowBudget) (m : StepMap) (c : ℕ)
    (s : Orchestrator (Option Json)) : Prop where
  steady : Steady budget c s
  loads : LoadsOver s fun _ => False
  ready : s.Ready
  shows : objectEntries s.steps = objectEntries m.checkpoint
  totals : s.totals = m.spend.running

theorem Steady.of_others (h : Steady budget c s) {t : Orchestrator (Option Json)}
    (hcalls : ∀ x, x ≠ c → t.calls x = s.calls x) (hstop : t.stop = s.stop)
    (haborted : t.aborted = s.aborted) (hcleared : t.cleared = s.cleared)
    (hbudget : t.budget = s.budget) (hcount : t.callCount = s.callCount) : Steady budget c t where
  others x call hx hne := h.others x call ((hcalls x hne).symm.trans hx) hne
  running := by
    rw [hstop, haborted, hcleared]
    exact h.running
  budget := hbudget.trans h.budget
  count := hcount.trans h.count

theorem Loaded.setPhase (h : Loaded budget m c s) (phase : CallPhase (Option Json)) :
    Loaded budget m c (s.setPhase c phase) where
  steady := h.steady.of_others (fun _ hx => setPhase_ne hx phase) rfl rfl rfl rfl rfl
  loads := h.loads
  ready := h.ready
  shows := h.shows
  totals := h.totals

theorem Loaded.begins (h : Loaded budget m c s) (phase : CallPhase (Option Json)) (b : List ℕ) :
    Loaded budget m c { s.setPhase c phase with begun := b } where
  steady := h.steady.of_others (fun _ hx => setPhase_ne hx phase) rfl rfl rfl rfl rfl
  loads := h.loads
  ready := h.ready
  shows := h.shows
  totals := h.totals

/-- What a name gives is what the map has for it. -/
theorem Loaded.get (h : Loaded budget m c s) (name : JsString) :
    (s.maps s.checkpoint).get name = (m.steps.get name).map (DoneStep.entry name) :=
  (get_of_objectEntries h.shows name).trans (m.checkpoint_get name)

/-- Nothing added to a total that does not round. -/
theorem add_nothing (t : Total) : t.add 0 = t := by
  cases t using WithTop.recTopCoe with
  | top => rfl
  | coe x => exact congrArg (fun a : Amount => (a : Total)) (add_zero x)

theorem totals_add_nothing (totals : RunningTotals) : totals.add 0 = totals :=
  RunningTotals.ext (add_nothing _) (add_nothing _)

/-- A result accounted while no ceiling is reached. -/
theorem paid_within (name : JsString) {result : JsString ⊕ Option Json}
    (hwithin : overBudgetReason (s.totals.add (costOf opts result)) s.budget = none) :
    ∃ charges, s.paid opts name result
      = { s with totals := s.totals.add (costOf opts result), charges := charges } := by
  refine ⟨s.charges ++ [⟨some name, costOf opts result⟩], ?_⟩
  unfold paid account costOf
  unfold costOf at hwithin
  cases hspend : opts.spendOf result with
  | none =>
      rw [totals_add_nothing]
      rfl
  | some delta =>
      rw [hspend] at hwithin
      refine (checkStop_cases _).elim And.right ?_
      rintro ⟨detail, -, hover, -⟩
      exact absurd (hover.symm.trans hwithin) (by simp)

/-- A step that is new to the map is written, and what it cost added. -/
theorem Loaded.stored (h : Loaded budget m c s) {name : JsString} {d : DoneStep}
    {amount : SpendTotals} (hfits : m.Fits d) (hnew : m.steps.get name = none)
    (charges : List Charge) : Loaded budget (m.add name d amount hfits) c
      (({ s with totals := s.totals.add amount, charges := charges } :
        Orchestrator (Option Json)).stored c name s.checkpoint (d.entry name)) where
  steady := h.steady.of_others (fun _ hx => if_neg hx) rfl rfl rfl rfl rfl
  loads := h.loads
  ready := h.ready
  shows := by
    have hnone : s.steps.get name = none := by
      show (s.maps s.checkpoint).get name = none
      rw [h.get, hnew]
      rfl
    have hsteps : (({ s with totals := s.totals.add amount, charges := charges } :
        Orchestrator (Option Json)).stored c name s.checkpoint (d.entry name)).steps
          = s.steps.set name (d.entry name) := if_pos rfl
    rw [hsteps, StepMap.add_checkpoint hfits hnew]
    exact objectEntries_set h.shows hnone _
  totals := congrArg (fun t : RunningTotals => t.add amount) h.totals

/-- The record that is saved keeps the map. -/
theorem Loaded.snapshot (h : Loaded budget m c s) (hfree : m.steps.get spendEntry = none) :
    Keeps m (some s.snapshot.record) := by
  have hnone : s.steps.get spendEntry = none := by
    show (s.maps s.checkpoint).get spendEntry = none
    rw [h.get, hfree]
    rfl
  refine ⟨?_, ?_⟩
  · show objectEntries ((s.steps.set spendEntry _).erase spendEntry) = _
    rw [OrderedMap.erase_set hnone]
    exact h.shows
  · have htext : spendText (some s.snapshot.record)
        = some (persistedText s.totals (s.stop.map WorkflowStop.detail)) := by
      show ((s.steps.set spendEntry _).get spendEntry).bind StepCheckpoint.result = _
      rw [OrderedMap.get_set_self]
      rfl
    rw [htext, parsePersistedSpend_text ⟨fun _ _ => rfl, fun _ _ => rfl⟩, h.totals,
      h.steady.running.1]
    rfl

/-! ### Loading -/

/-- The call has made the instance load. -/
structure Opening (budget : WorkflowBudget) (m : StepMap) (r : StepRequest) (c : ℕ) (b : List ℕ)
    (l : ℕ) (s : Orchestrator (Option Json)) : Prop where
  steady : Steady budget c s
  loads : LoadsOver s fun x => x = l
  loading : s.loading = some (.load l)
  asked : l < s.loadCount
  generation : (s.loads l).generation = s.generation
  call : s.calls c = some ⟨r.kind, r.name, .loading s.generation (.load l)⟩
  jobs : s.jobs = []
  keeps : Keeps m s.store
  totals : s.totals = 0
  begun : s.begun = b

/-- What a kept record is taken for. -/
theorem Keeps.read {record : Option Checkpoint} (h : Keeps m record) :
    objectEntries ((record.getD .empty).erase spendEntry) = objectEntries m.checkpoint ∧
      parsePersistedSpend (spendText record) = some ⟨m.spend, none⟩ := by
  cases record with
  | some record => exact h
  | none =>
      obtain ⟨hsteps, hspend⟩ := h
      refine ⟨?_, ?_⟩
      · have hnone : m.checkpoint = .empty := OrderedMap.ext (by
          show m.steps.entries.map _ = []
          rw [hsteps]
          rfl)
        rw [hnone]
        rfl
      · rw [hspend]
        exact parsePersistedSpend_none

/-- A loaded spend that reaches no ceiling. -/
theorem restore_within (record : Checkpoint) (ledger : List Charge) {spend : SpendTotals}
    (hwithin : overBudgetReason (s.totals.add spend) s.budget = none) :
    s.restore record ledger ⟨spend, none⟩ = { s with
      totals := s.totals.add spend
      restoredRecord := some record
      restored := spend
      inherited := ledger } := by
  unfold restore
  rcases keepStop_cases _ (PersistedSpend.mk spend none) with ⟨-, h⟩ | ⟨detail, -, -, hover, -⟩
  · rw [h]
    rcases checkStop_cases _ with ⟨-, h'⟩ | ⟨detail, -, hover, -⟩
    · exact h'
    · exact absurd (hover.symm.trans hwithin) (by simp)
  · exact absurd (hover.symm.trans hwithin) (by simp)

/-- **A load gives the instance what the store keeps.** -/
theorem Opening.returned {b : List ℕ} {l : ℕ} {record : Option Checkpoint}
    (h : Opening budget m r c b l s) (ledger : List Charge) (hrecord : Keeps m record)
    (hwithin : overBudgetReason m.spend.running budget = none) :
    Loaded budget m c (s.loadReturned l record ledger) ∧
      (s.loadReturned l record ledger).calls = s.calls ∧
      (s.loadReturned l record ledger).jobs = [] ∧
      (s.loadReturned l record ledger).store = s.store ∧
      (s.loadReturned l record ledger).begun = b ∧
      (s.loadReturned l record ledger).generation = s.generation ∧
      (s.loadReturned l record ledger).outcome (.load l) = some true := by
  obtain ⟨hsteps, hspend⟩ := hrecord.read
  rcases s.loadReturned_cases l record ledger with ⟨hgen, -⟩ | ⟨-, hparse, -⟩ |
    ⟨saved, -, hparse, hs⟩
  · exact absurd h.generation hgen
  · exact absurd (hparse.symm.trans hspend) (by simp)
  · obtain rfl : saved = ⟨m.spend, none⟩ := Option.some.inj (hparse.symm.trans hspend)
    have hzero : s.totals.add m.spend = m.spend.running := by
      rw [h.totals]
      exact congrArg SpendTotals.running (zero_add m.spend)
    have hover : overBudgetReason (s.totals.add m.spend) s.budget = none := by
      rw [hzero, h.steady.budget]
      exact hwithin
    rw [restore_within (s := s.withSteps record) _ ledger hover] at hs
    rw [hs]
    have hsettled := outcome_settled s l true
    refine ⟨⟨?_, fun x _ => ?_, ⟨.load l, h.loading, hsettled⟩, ?_, hzero⟩, rfl, h.jobs, rfl,
      h.begun, rfl, hsettled⟩
    · exact h.steady.of_others (fun _ _ => rfl) rfl rfl rfl rfl rfl
    · by_cases hx : x = l
      · subst hx
        exact .inl ⟨h.asked, true, outcome_load.mp hsettled⟩
      · have hsame : (s.setLoad l (.settled true)).loads x = s.loads x := if_neg hx
        have hother := h.loads x hx
        rw [← hsame] at hother
        exact hother
    · have hmap : ((s.withSteps record).maps (s.checkpoint + 1))
          = (record.getD .empty).erase spendEntry := if_pos rfl
      show objectEntries ((s.withSteps record).maps (s.checkpoint + 1)) = _
      rw [hmap]
      exact hsteps

/-! ### A call from start to end -/

/-- What is known of a call that is made. -/
structure Setting (opts : OrchestratorOptions (Option Json)) (budget : WorkflowBudget)
    (m : StepMap) (r : StepRequest) : Prop where
  texts : ∀ value, opts.stringify value = some (some (DoneStep.jsonText value))
  name : r.name ≠ spendEntry
  free : m.steps.get spendEntry = none
  plain : m.Plain r
  within : overBudgetReason m.spend.running budget = none
  after : overBudgetReason (m.perform (costOf opts) r).1.spend.running budget = none

/-- The phase of a call that goes on itself, with the map the instance has then, how far it
is from its end, and whether it has waited. -/
inductive Turn (opts : OrchestratorOptions (Option Json)) (m : StepMap) (r : StepRequest) (c : ℕ)
    (b : List ℕ) (s : Orchestrator (Option Json)) :
    CallPhase (Option Json) → StepMap → ℕ → Bool → Prop
  | loading (ref : LoadRef) (ho : s.outcome ref = some true) (hb : s.begun = b) :
      Turn opts m r c b s (.loading s.generation ref) m 10 false
  | loaded (hb : s.begun = b) : Turn opts m r c b s (.loaded s.generation s.checkpoint) m 9 false
  | started (hb : s.begun = b) : Turn opts m r c b s (.started s.checkpoint) m 8 false
  | dispatching (name taskId result : JsString) (hr : r = .runStep name taskId result)
      (hnew : m.steps.get name = none) (hb : s.begun = b ++ [c]) :
      Turn opts m r c b s (.dispatching s.checkpoint) m 7 false
  | waiting (name taskId result : JsString) (hr : r = .runStep name taskId result)
      (hnew : m.steps.get name = none) (hnone : m.resultOf taskId = none)
      (hb : s.begun = b ++ [c]) : Turn opts m r c b s (.waiting s.checkpoint taskId) m 6 false
  | producing (name : JsString) (value : Option Json) (hr : r = .memoize name value)
      (hnew : m.steps.get name = none) (hb : s.begun = b ++ [c]) :
      Turn opts m r c b s (.producing s.checkpoint) m 7 false
  | produced (name : JsString) (value : Option Json) (hr : r = .memoize name value)
      (hnew : m.steps.get name = none) (hb : s.begun = b ++ [c]) :
      Turn opts m r c b s (.produced s.checkpoint value) m 6 false
  | saved (result : Option JsString)
      (hreturned : r.returned (m.perform (costOf opts) r).2.begins result
        = some (m.perform (costOf opts) r).2.answer)
      (hb : s.begun = b ++ if (m.perform (costOf opts) r).2.begins then [c] else []) :
      Turn opts m r c b s (.saved result) (m.perform (costOf opts) r).1 1
        (m.perform (costOf opts) r).2.waits
  | ended (result : Option JsString)
      (hreturned : r.returned (m.perform (costOf opts) r).2.begins result
        = some (m.perform (costOf opts) r).2.answer)
      (hb : s.begun = b ++ if (m.perform (costOf opts) r).2.begins then [c] else []) :
      Turn opts m r c b s (.resolved result) (m.perform (costOf opts) r).1 0
        (m.perform (costOf opts) r).2.waits

/-- How far the save is from the end of the call. -/
inductive SaveTurn (m : StepMap) (s : Orchestrator (Option Json)) : JobPhase → ℕ → Prop
  | queued : SaveTurn m s .queued 5
  | loading (ref : LoadRef) (ho : s.outcome ref = some true) : SaveTurn m s (.loading ref) 4
  | writing (snap : Snapshot) (hkeeps : Keeps m (some snap.record)) :
      SaveTurn m s (.writing snap false) 3
  | written (snap : Snapshot) (hkeeps : Keeps m s.store) : SaveTurn m s (.writing snap true) 2

/-- A call under way, or at its end. -/
inductive Doing (opts : OrchestratorOptions (Option Json)) (budget : WorkflowBudget) (m : StepMap)
    (r : StepRequest) (c : ℕ) (b : List ℕ) : ℕ → Bool → Orchestrator (Option Json) → Prop
  | reading {s : Orchestrator (Option Json)} (l : ℕ) (h : Opening budget m r c b l s)
      (hp : (s.loads l).phase = .reading) : Doing opts budget m r c b 12 false s
  | read {s : Orchestrator (Option Json)} (l : ℕ) (record : Option Checkpoint)
      (ledger : List Charge) (h : Opening budget m r c b l s) (hrecord : Keeps m record)
      (hp : (s.loads l).phase = .read record ledger) : Doing opts budget m r c b 11 false s
  | turn {s : Orchestrator (Option Json)} {phase : CallPhase (Option Json)} {m' : StepMap} {n : ℕ}
      {waited : Bool} (h : Loaded budget m' c s) (hjobs : s.jobs = []) (hkeeps : Keeps m' s.store)
      (hc : s.calls c = some ⟨r.kind, r.name, phase⟩) (ht : Turn opts m r c b s phase m' n waited) :
      Doing opts budget m r c b n waited s
  | saving {s : Orchestrator (Option Json)} {n : ℕ} (job : Job) (result : Option JsString)
      (h : Loaded budget (m.perform (costOf opts) r).1 c s) (hjobs : s.jobs = [job])
      (hkind : job.kind = .save (some c))
      (hc : s.calls c = some ⟨r.kind, r.name, .saving result⟩)
      (hreturned : r.returned (m.perform (costOf opts) r).2.begins result
        = some (m.perform (costOf opts) r).2.answer)
      (hb : s.begun = b ++ if (m.perform (costOf opts) r).2.begins then [c] else [])
      (hjob : SaveTurn (m.perform (costOf opts) r).1 s job.phase n) :
      Doing opts budget m r c b n (m.perform (costOf opts) r).2.waits s

variable {b : List ℕ} {n : ℕ} {waited : Bool}

/-- The name of the reserved entry stays free. -/
theorem Setting.free_after (h : Setting opts budget m r) :
    (m.perform (costOf opts) r).1.steps.get spendEntry = none := by
  have hadd : ∀ {name d amount} (hfits : m.Fits d), name ≠ spendEntry →
      (m.add name d amount hfits).steps.get spendEntry = none := by
    intro name d amount hfits hne
    show (m.steps.set name d).get spendEntry = none
    rw [OrderedMap.get_set_ne _ _ hne.symm]
    exact h.free
  cases r with
  | runStep name taskId result =>
      cases hget : m.steps.get name with
      | some d =>
          rw [StepMap.perform_runStep_known (costOf opts) taskId result hget]
          exact h.free
      | none =>
          cases hr : m.resultOf taskId with
          | some t =>
              obtain ⟨hfits, heq⟩ :=
                StepMap.perform_runStep_found (costOf opts) result hget hr
              rw [heq]
              exact hadd hfits h.name
          | none =>
              obtain ⟨hfits, heq⟩ :=
                StepMap.perform_runStep_new (costOf opts) result hget hr
              rw [heq]
              exact hadd hfits h.name
  | memoize name value =>
      cases hget : m.steps.get name with
      | some d =>
          rw [StepMap.perform_memoize_known (costOf opts) value hget]
          exact h.free
      | none =>
          rw [StepMap.perform_memoize_new (costOf opts) value hget]
          exact hadd (m.fits_memoized value) h.name

/-- The step of the call is written, and the save it waits for is queued. -/
theorem Doing.of_stored (h : Loaded budget m c s) (hjobs : s.jobs = []) {name : JsString}
    {d : DoneStep} {amount : SpendTotals} {hfits : m.Fits d} {o : StepOutcome}
    (hperform : m.perform (costOf opts) r = (m.add name d amount hfits, o))
    (hnew : m.steps.get name = none) (charges : List Charge) {phase : CallPhase (Option Json)}
    (hc : s.calls c = some ⟨r.kind, r.name, phase⟩) (hb : s.begun = b ++ [c])
    (hbegins : o.begins = true)
    (hreturned : r.returned true (d.entry name).result = some o.answer) :
    Doing opts budget m r c b 5 o.waits
      (({ s with totals := s.totals.add amount, charges := charges } :
        Orchestrator (Option Json)).stored c name s.checkpoint (d.entry name)) := by
  have hloaded : Loaded budget (m.add name d amount hfits) c _ := h.stored hfits hnew charges
  have hwaits : o.waits = (m.perform (costOf opts) r).2.waits := by rw [hperform]
  rw [hwaits]
  refine .saving ⟨s.jobCount, .save (some c), .queued⟩ (d.entry name).result ?_ ?_ rfl ?_ ?_ ?_
    .queued
  · rw [hperform]
    exact hloaded
  · show s.jobs ++ [_] = _
    rw [hjobs]
    rfl
  · exact setPhase_self (s := { s with totals := s.totals.add amount, charges := charges }) hc _
  · rw [hperform, hbegins]
    exact hreturned
  · rw [hperform, hbegins]
    exact hb

/-- A call that looks at the map. -/
theorem Setting.enters (hset : Setting opts budget m r) (h : Loaded budget m c s)
    (hjobs : s.jobs = []) (hkeeps : Keeps m s.store)
    (hc : s.calls c = some ⟨r.kind, r.name, .started s.checkpoint⟩) (hb : s.begun = b) :
    ∃ n < 8, Doing opts budget m r c b n false (s.enter opts c r.kind r.name s.checkpoint) := by
  -- A step that is there is replayed.
  have hknown : ∀ d result, m.steps.get r.name = some d →
      (replay r.kind (d.entry r.name).result : CallPhase (Option Json)) = .resolved result →
      (m.perform (costOf opts) r).1 = m → (m.perform (costOf opts) r).2.begins = false →
      (m.perform (costOf opts) r).2.waits = false →
      r.returned false result = some (m.perform (costOf opts) r).2.answer →
      Doing opts budget m r c b 0 false
        (s.setPhase c (replay r.kind (d.entry r.name).result)) := by
    intro d result hget hreplay hm hbegins hwaits hreturned
    rw [hreplay, ← hwaits]
    refine .turn ?_ hjobs ?_ (setPhase_self hc (.resolved result)) (.ended result ?_ ?_)
    · rw [hm]
      exact h.setPhase _
    · rw [hm]
      exact hkeeps
    · rw [hbegins]
      exact hreturned
    · rw [hbegins]
      exact hb.trans (List.append_nil b).symm
  rcases enter_cases opts s c r.kind r.name s.checkpoint with ⟨e, hget, hs⟩ | ⟨-, hname, -⟩ |
    ⟨err, -, -, href, -⟩ | ⟨hget, -, -, -, hs⟩
  · rw [h.get] at hget
    obtain ⟨d, hd, rfl⟩ := Option.map_eq_some_iff.mp hget
    rw [hs]
    refine ⟨0, by omega, ?_⟩
    cases r with
    | runStep name taskId result =>
        have hran : (m.steps.get name).all DoneStep.isRan = true := hset.plain.2.1
        have hd' : m.steps.get name = some d := hd
        have hp := StepMap.perform_runStep_known (costOf opts) taskId result hd'
        rw [hd'] at hran
        cases d with
        | ran id first =>
            refine hknown _ (some first) hd rfl ?_ ?_ ?_ ?_ <;> rw [hp]
            rfl
        | memoized value => exact absurd hran (by simp [DoneStep.isRan])
    | memoize name value =>
        have hran : (m.steps.get name).all (fun d => !d.isRan) = true := hset.plain.2
        have hd' : m.steps.get name = some d := hd
        have hp := StepMap.perform_memoize_known (costOf opts) value hd'
        rw [hd'] at hran
        cases d with
        | ran id first => exact absurd hran (by simp [DoneStep.isRan])
        | memoized first =>
            have hparse : Json.parse (DoneStep.jsonText first)
                = some (Json.printed (first.getD .null)) := Json.parse_stringify _
            refine hknown _ (some (DoneStep.jsonText first)) hd ?_ ?_ ?_ ?_ ?_
            · show replay CallKind.memoize (some (DoneStep.jsonText first)) = _
              simp only [replay, Option.bind_some, hparse]
            · rw [hp]
            · rw [hp]
            · rw [hp]
            · rw [hp]
              show ((some (DoneStep.jsonText first)).bind Json.parse).map _ = _
              rw [Option.bind_some, hparse]
              rfl
  · cases r with
    | runStep name taskId result => exact absurd hname hset.plain.1
    | memoize name value => exact absurd hname hset.plain.1
  · have hallowed : s.dispatchRefused opts = none :=
      dispatchRefused_eq_none.mpr ⟨h.steady.running.2.1, h.steady.running.1⟩
    exact absurd (href.symm.trans hallowed) (by simp)
  · rw [h.get, Option.map_eq_none_iff] at hget
    rw [hs]
    have hphase := setPhase_self hc (if r.kind = CallKind.memoize then .producing s.checkpoint
      else .dispatching s.checkpoint)
    refine ⟨7, by omega, .turn (h.begins _ _) hjobs hkeeps hphase ?_⟩
    rw [hb]
    cases r with
    | runStep name taskId result => exact .dispatching name taskId result rfl hget rfl
    | memoize name value => exact .producing name value rfl hget rfl

/-- **A call that goes on itself comes nearer to its end.** -/
theorem Setting.turn (hset : Setting opts budget m r) {phase : CallPhase (Option Json)}
    (h : Loaded budget m' c s) (hjobs : s.jobs = []) (hkeeps : Keeps m' s.store)
    (hc : s.calls c = some ⟨r.kind, r.name, phase⟩) (ht : Turn opts m r c b s phase m' n waited)
    (hown : r.Allows e) (hstep : s.step opts e = some s') :
    ∃ n' < n, Doing opts budget m r c b n' (waited || e.isWaited) s' := by
  have hturn := call_turn h.steady.others h.loads hjobs hc hown hstep
  cases ht with
  | loading ref ho hb =>
      cases hturn with
      | loaded _ _ ok ho' =>
          obtain rfl : true = ok := Option.some.inj (ho.symm.trans ho')
          have hkind : r.kind ≠ .isResuming := by cases r <;> simp [StepRequest.kind]
          have hs : s.callLoaded c r.kind s.generation true
              = s.setPhase c (.loaded s.generation s.checkpoint) := if_neg hkind
          rw [hs]
          exact ⟨9, by omega, .turn (h.setPhase _) hjobs hkeeps (setPhase_self hc _) (.loaded hb)⟩
  | loaded hb =>
      cases hturn with
      | checked =>
          have hs : s.callChecked c r.name s.generation s.checkpoint
              = s.setPhase c (.started s.checkpoint) := if_neg fun hne => hne rfl
          rw [hs]
          exact ⟨8, by omega, .turn (h.setPhase _) hjobs hkeeps (setPhase_self hc _) (.started hb)⟩
  | started hb =>
      cases hturn with
      | entered => exact hset.enters h hjobs hkeeps hc hb
  | dispatching name taskId result hr hnew hb =>
      cases hturn with
      | dispatched _ given =>
          obtain ⟨name', taskId', result', hr', rfl⟩ := hown
          obtain ⟨rfl, rfl, rfl⟩ := StepRequest.runStep.inj (hr.symm.trans hr')
          subst hr
          have hfind : findByTaskId (s.maps s.checkpoint) taskId = m.resultOf taskId :=
            StepMap.findByTaskId_eq h.shows (hset.plain.2.2 hnew)
          rcases s.dispatched_cases c name s.checkpoint (.ok taskId) with ⟨hbad, -⟩ |
            ⟨taskId', found, hid, hfound, hs⟩ | ⟨taskId', hid, hnone, hs⟩
          · exact absurd hbad (by simp)
          · obtain rfl := Except.ok.inj hid
            rw [hfind] at hfound
            obtain ⟨hfits, hp⟩ := StepMap.perform_runStep_found (costOf opts) result hnew hfound
            have hsame : s = { s with totals := s.totals.add 0, charges := s.charges } := by
              rw [totals_add_nothing]
            refine ⟨5, by omega, ?_⟩
            show Doing opts budget m _ c b 5 false (s.dispatched c name s.checkpoint (.ok taskId))
            rw [hs]
            have hdone := Doing.of_stored h hjobs hp hnew s.charges hc hb rfl rfl
            rw [← hsame] at hdone
            exact hdone
          · obtain rfl := Except.ok.inj hid
            refine ⟨6, by omega, ?_⟩
            show Doing opts budget m _ c b 6 false (s.dispatched c name s.checkpoint (.ok taskId))
            rw [hs]
            exact .turn (h.setPhase _) hjobs hkeeps (setPhase_self hc _)
              (.waiting name taskId result rfl hnew (hfind.symm.trans hnone) hb)
  | waiting name taskId result hr hnew hnone hb =>
      cases hturn with
      | waited _ _ given =>
          obtain ⟨name', taskId', result', hr', rfl⟩ := hown
          obtain ⟨rfl, rfl, rfl⟩ := StepRequest.runStep.inj (hr.symm.trans hr')
          subst hr
          obtain ⟨hfits, hp⟩ := StepMap.perform_runStep_new (costOf opts) result hnew hnone
          have hover : overBudgetReason (s.totals.add (costOf opts (.inl result)))
              s.budget = none := by
            have hafter := hset.after
            rw [hp] at hafter
            rw [h.totals, h.steady.budget]
            exact hafter
          obtain ⟨charges, hpaid⟩ := paid_within name hover
          refine ⟨5, by omega, ?_⟩
          show Doing opts budget m _ c b 5 true ((s.paid opts name (.inl result)).stored c name
            s.checkpoint ⟨taskId, some result⟩)
          rw [hpaid]
          exact Doing.of_stored h hjobs hp hnew charges hc hb rfl rfl
  | producing name value hr hnew hb =>
      cases hturn with
      | produced _ value' =>
          obtain ⟨name', given, hr', hgiven⟩ := hown
          obtain ⟨rfl, rfl⟩ := StepRequest.memoize.inj (hr.symm.trans hr')
          obtain rfl := Except.ok.inj hgiven
          exact ⟨6, by omega, .turn (h.setPhase _) hjobs hkeeps (setPhase_self hc _)
            (.produced name _ hr hnew hb)⟩
  | produced name value hr hnew hb =>
      cases hturn with
      | continued =>
          subst hr
          have hp := StepMap.perform_memoize_new (costOf opts) value hnew
          have hover : overBudgetReason (s.totals.add (costOf opts (.inr value)))
              s.budget = none := by
            have hafter := hset.after
            rw [hp] at hafter
            rw [h.totals, h.steady.budget]
            exact hafter
          obtain ⟨charges, hpaid⟩ := paid_within name hover
          refine ⟨5, by omega, ?_⟩
          show Doing opts budget m _ c b 5 false (s.continued opts c name s.checkpoint value)
          rcases continued_cases opts s c name s.checkpoint value with ⟨hbad, -⟩ |
            ⟨text, htext, hs⟩
          · exact absurd (hbad.symm.trans (hset.texts value)) (by simp)
          · obtain rfl := Option.some.inj ((hset.texts value).symm.trans htext)
            rw [hs, hpaid]
            exact Doing.of_stored h hjobs hp hnew charges hc hb rfl rfl
  | saved result hreturned hb =>
      cases hturn with
      | finished =>
          refine ⟨0, by omega, ?_⟩
          have hor : ∀ x : Bool, (x || (OrchestratorEvent.finishes c :
              OrchestratorEvent (Option Json)).isWaited) = x := Bool.or_false
          rw [hor]
          exact .turn (h.setPhase _) hjobs hkeeps (setPhase_self hc _)
            (.ended result hreturned hb)
  | ended result hreturned hb => cases hturn

/-- The save chain and the store are not what the instance has loaded. -/
theorem Loaded.chain (h : Loaded budget m c s) (jobs : List Job) (store : Option Checkpoint)
    (flushed : ℕ) (ledger : List Charge) (storeCalls : List StoreCall) :
    Loaded budget m c { s with
      jobs := jobs
      store := store
      flushed := flushed
      storeLedger := ledger
      storeCalls := storeCalls } where
  steady := h.steady.of_others (fun _ _ => rfl) rfl rfl rfl rfl rfl
  loads := h.loads
  ready := h.ready
  shows := h.shows
  totals := h.totals

/-- **A call whose save goes on comes nearer to its end.** -/
theorem Setting.save (hset : Setting opts budget m r) {job : Job} {result : Option JsString}
    (h : Loaded budget (m.perform (costOf opts) r).1 c s) (hjobs : s.jobs = [job])
    (hkind : job.kind = .save (some c))
    (hc : s.calls c = some ⟨r.kind, r.name, .saving result⟩)
    (hreturned : r.returned (m.perform (costOf opts) r).2.begins result
      = some (m.perform (costOf opts) r).2.answer)
    (hb : s.begun = b ++ if (m.perform (costOf opts) r).2.begins then [c] else [])
    (hjob : SaveTurn (m.perform (costOf opts) r).1 s job.phase n) (hown : r.Allows e)
    (hstep : s.step opts e = some s') :
    ∃ n' < n, e.isWaited = false ∧
      Doing opts budget m r c b n' (m.perform (costOf opts) r).2.waits s' := by
  have hsave : ∀ acted, job.phase ≠ .clearing acted := by
    intro acted hp
    rw [hp] at hjob
    cases hjob
  have hturn := job_turn h.steady.others h.loads hjobs hsave hc hown hstep
  generalize hphase : job.phase = phase at hjob
  cases hjob with
  | queued =>
      cases hturn with
      | started hp =>
          obtain ⟨ref, hloading, ho⟩ := h.ready
          have hs : s.jobStarted job []
              = { s with jobs := [{ job with phase := .loading ref }] } := by
            rcases s.jobStarted_cases job [] with ⟨owner, -, hs⟩ | ⟨hwipe, -⟩
            · rcases s.ensureLoaded_cases with ⟨ref', hloading', hl⟩ | ⟨hnone, -⟩
              · obtain rfl := Option.some.inj (hloading.symm.trans hloading')
                rw [hs, hl]
              · exact absurd (hloading.symm.trans hnone) (by simp)
            · exact absurd (hkind.symm.trans hwipe) (by simp)
          rw [hs]
          exact ⟨4, by omega, rfl, .saving { job with phase := .loading ref } result
            (h.chain _ _ _ _ _) rfl hkind hc hreturned hb (.loading ref ho)⟩
      | loaded ref ok hp ho => exact absurd (hphase.symm.trans hp) (by simp)
      | saved snap hp => exact absurd (hphase.symm.trans hp) (by simp)
      | returned snap hp => exact absurd (hphase.symm.trans hp) (by simp)
  | loading ref ho =>
      cases hturn with
      | loaded ref' ok hp ho' =>
          obtain rfl := JobPhase.loading.inj (hphase.symm.trans hp)
          obtain rfl : true = ok := Option.some.inj (ho.symm.trans ho')
          rcases s.jobLoaded_cases job [] true with ⟨hbad, -⟩ | ⟨-, hcleared, -, -⟩ | ⟨-, -, hs⟩
          · exact absurd hbad (by simp)
          · exact absurd (hcleared.symm.trans h.steady.running.2.2) (by simp)
          · rw [hs]
            exact ⟨3, by omega, rfl, .saving { job with phase := .writing s.snapshot false } result
              (h.chain _ _ _ _ _) rfl hkind hc hreturned hb
              (.writing s.snapshot (h.snapshot hset.free_after))⟩
      | started hp => exact absurd (hphase.symm.trans hp) (by simp)
      | saved snap hp => exact absurd (hphase.symm.trans hp) (by simp)
      | returned snap hp => exact absurd (hphase.symm.trans hp) (by simp)
  | writing snap hkeeps =>
      cases hturn with
      | saved snap' hp =>
          obtain ⟨rfl, -⟩ := JobPhase.writing.inj (hphase.symm.trans hp)
          exact ⟨2, by omega, rfl, .saving { job with phase := .writing snap true } result
            (h.chain _ _ _ _ _) rfl hkind hc hreturned hb (.written snap hkeeps)⟩
      | started hp => exact absurd (hphase.symm.trans hp) (by simp)
      | loaded ref ok hp ho => exact absurd (hphase.symm.trans hp) (by simp)
      | returned snap hp => exact absurd (hphase.symm.trans hp) (by simp)
  | written snap hkeeps =>
      cases hturn with
      | returned snap' hp =>
          have hs : s.jobSettled job [] true
              = ({ s with jobs := [] } : Orchestrator (Option Json)).setPhase c
                  (.saved result) := by
            unfold jobSettled
            simp only [hkind, hc, if_true]
          rw [hs]
          exact ⟨1, by omega, rfl, .turn ((h.chain [] _ _ _ _).setPhase _) rfl hkeeps
            (setPhase_self (s := { s with jobs := [] }) hc _) (.saved result hreturned hb)⟩
      | started hp => exact absurd (hphase.symm.trans hp) (by simp)
      | loaded ref ok hp ho => exact absurd (hphase.symm.trans hp) (by simp)
      | saved snap hp => exact absurd (hphase.symm.trans hp) (by simp)

/-- Between two calls. -/
structure Idle (budget : WorkflowBudget) (m : StepMap) (s : Orchestrator (Option Json)) :
    Prop where
  returned : ∀ x call, s.calls x = some call → x < s.callCount ∧ call.phase.Over
  running : s.stop = none ∧ s.aborted = false ∧ s.cleared = false
  ceilings : s.budget = budget
  loads : LoadsOver s fun _ => False
  jobs : s.jobs = []
  free : m.steps.get spendEntry = none
  within : overBudgetReason m.spend.running budget = none
  keeps : Keeps m s.store
  memory : s.loading = none ∧ s.totals = 0 ∨
    s.Ready ∧ objectEntries s.steps = objectEntries m.checkpoint ∧ s.totals = m.spend.running

/-- A call that is made between two others. -/
theorem Idle.called (h : Idle budget m s) (opts : OrchestratorOptions (Option Json))
    (hname : r.name ≠ spendEntry) :
    ∃ s' n, s.step opts (.call r.kind r.name) = some s' ∧
      Doing opts budget m r s.callCount s.begun n false s' := by
  have hkind : r.kind ≠ .isResuming := by cases r <;> simp [StepRequest.kind]
  have hsteady : ∀ (t : Orchestrator (Option Json)) (call : StepCall (Option Json)),
      t.calls = s.calls → t.callCount = s.callCount → t.stop = s.stop → t.aborted = s.aborted →
      t.cleared = s.cleared → t.budget = s.budget →
      Steady budget s.callCount (t.newCall call) := by
    intro t call hcalls hcount hstop haborted hcleared hbudget
    refine ⟨fun x call' hx hne => ?_, ?_, hbudget.trans h.ceilings, congrArg (· + 1) hcount⟩
    · have hold : t.calls x = some call' := by
        rw [← hcount] at hne
        exact (if_neg hne).symm.trans hx
      exact h.returned x call' (hcalls ▸ hold)
    · have hrunning := h.running
      rw [← hstop, ← haborted, ← hcleared] at hrunning
      exact hrunning
  have hself : ∀ (t : Orchestrator (Option Json)) (call : StepCall (Option Json)),
      t.callCount = s.callCount → (t.newCall call).calls s.callCount = some call :=
    fun t call hcount => if_pos hcount.symm
  rcases s.startCall_cases r.kind r.name with ⟨-, hreserved, -⟩ | ⟨-, hs⟩
  · exact absurd hreserved hname
  · rcases s.ensureLoaded_cases with ⟨ref, hloading, hl⟩ | ⟨hnone, hl⟩ <;> rw [hl] at hs
    · rcases h.memory with ⟨hnone, -⟩ | ⟨hready, hshows, htotals⟩
      · exact absurd (hloading.symm.trans hnone) (by simp)
      · have ho : s.outcome ref = some true := by
          obtain ⟨ref', href', ho⟩ := hready
          obtain rfl := Option.some.inj (hloading.symm.trans href')
          exact ho
        refine ⟨_, 10, congrArg some hs, .turn ⟨hsteady s _ rfl rfl rfl rfl rfl rfl, h.loads,
          hready, hshows, htotals⟩ h.jobs h.keeps (hself s _ rfl) (.loading ref ho rfl)⟩
    · rcases h.memory with ⟨-, hzero⟩ | ⟨⟨ref, href, -⟩, -⟩
      · refine ⟨_, 12, congrArg some hs, .reading s.loadCount ⟨hsteady _ _ rfl rfl rfl rfl rfl rfl,
          fun x hx => ?_, rfl, Nat.lt_succ_self _, ?_, hself _ _ rfl, h.jobs, h.keeps, hzero, rfl⟩
          ?_⟩
        · have hsame : (if x = s.loadCount then (⟨s.generation, .reading⟩ : Load)
            else s.loads x) = s.loads x := if_neg hx
          show (x < s.loadCount + 1 ∧ ∃ ok, (if x = s.loadCount then _ else s.loads x).phase
              = .settled ok) ∨ s.loadCount + 1 ≤ x ∧ (if x = s.loadCount then _
              else s.loads x).phase = .reading
          rw [hsame]
          rcases h.loads x id with ⟨hlt, hsettled⟩ | ⟨hle, hreading⟩
          · exact .inl ⟨Nat.lt_succ_of_lt hlt, hsettled⟩
          · exact .inr ⟨Nat.lt_of_le_of_ne hle (Ne.symm hx), hreading⟩
        · exact congrArg Load.generation (if_pos rfl)
        · exact congrArg Load.phase (if_pos rfl)
      · exact absurd (hnone.symm.trans href) (by simp)

/-- A call at its end has come to what the map says. -/
theorem Doing.ended (hset : Setting opts budget m r) (h : Doing opts budget m r c b n waited s)
    (hover : ∃ call, s.calls c = some call ∧ call.phase.Over) :
    (∃ result, s.calls c = some ⟨r.kind, r.name, .resolved result⟩ ∧
      r.returned (m.perform (costOf opts) r).2.begins result
        = some (m.perform (costOf opts) r).2.answer) ∧
      s.begun = b ++ (if (m.perform (costOf opts) r).2.begins then [c] else []) ∧
      waited = (m.perform (costOf opts) r).2.waits ∧
      Idle budget (m.perform (costOf opts) r).1 s := by
  obtain ⟨call, hcall, hphase⟩ := hover
  have hnot : ∀ {phase : CallPhase (Option Json)}, s.calls c = some ⟨r.kind, r.name, phase⟩ →
      phase.Over := by
    intro phase hc
    obtain rfl := Option.some.inj (hcall.symm.trans hc)
    exact hphase
  cases h with
  | reading l h hp => exact (hnot h.call).elim
  | read l record ledger h hrecord hp => exact (hnot h.call).elim
  | saving job result h hjobs hkind hc hreturned hb hjob => exact (hnot hc).elim
  | turn h hjobs hkeeps hc ht =>
      cases ht with
      | ended result hreturned hb =>
          refine ⟨⟨result, hc, hreturned⟩, hb, rfl, fun x call' hx => ?_, h.steady.running,
            h.steady.budget, h.loads, hjobs, hset.free_after, hset.after, hkeeps,
            .inr ⟨h.ready, h.shows, h.totals⟩⟩
          rw [h.steady.count]
          by_cases hxc : x = c
          · subst hxc
            obtain rfl := Option.some.inj (hc.symm.trans hx)
            exact ⟨Nat.lt_succ_self _, trivial⟩
          · obtain ⟨hlt, hover⟩ := h.steady.others x call' hx hxc
            exact ⟨Nat.lt_succ_of_lt hlt, hover⟩
      | _ => exact (hnot hc).elim

/-- What is kept between calls says that the instance and the store have the map. -/
theorem Idle.shows (h : Idle budget m s) : Shows m s := by
  rcases h.memory with hfresh | ⟨-, hloaded⟩
  · exact .inl hfresh
  · exact .inr hloaded

end Kaiban.Orchestrator
