/-
A call that is alone.

While one call is under way, nothing fails and nobody else acts, one thing at most can go on:
the load, the save, or the call.  For each of the three a case split on what it does is all
there is to prove about a step.
-/
import Kaiban.Proofs.Orchestrator.Loads
import Kaiban.Proofs.StepMap

open JsString

namespace Kaiban.Orchestrator

attribute [local instance] Arithmetic.exact

variable {opts : OrchestratorOptions (Option Json)} {s s' : Orchestrator (Option Json)}
  {r : StepRequest} {e : OrchestratorEvent (Option Json)} {c : ℕ}

/-- Calls other than `c` came before it and are over. -/
def OthersOver (c : ℕ) (s : Orchestrator (Option Json)) : Prop :=
  ∀ x call, s.calls x = some call → x ≠ c → x < c ∧ call.phase.Over

/-- No load but these is under way. -/
def LoadsOver (s : Orchestrator (Option Json)) (l : ℕ → Prop) : Prop :=
  ∀ x, ¬ l x → (x < s.loadCount ∧ ∃ ok, (s.loads x).phase = .settled ok) ∨
    s.loadCount ≤ x ∧ (s.loads x).phase = .reading

/-- What the call `c` does, in its phase. -/
inductive CallTurn (opts : OrchestratorOptions (Option Json)) (s : Orchestrator (Option Json))
    (c : ℕ) (kind : CallKind) (name : JsString) : CallPhase (Option Json) →
    OrchestratorEvent (Option Json) → Orchestrator (Option Json) → Prop
  | loaded (generation : ℕ) (ref : LoadRef) (ok : Bool) (ho : s.outcome ref = some ok) :
      CallTurn opts s c kind name (.loading generation ref) (.loaded c)
        (s.callLoaded c kind generation ok)
  | checked (generation cp : ℕ) :
      CallTurn opts s c kind name (.loaded generation cp) (.checked c)
        (s.callChecked c name generation cp)
  | entered (cp : ℕ) :
      CallTurn opts s c kind name (.started cp) (.enters c) (s.enter opts c kind name cp)
  | dispatched (cp : ℕ) (given : Except Unit JsString) :
      CallTurn opts s c kind name (.dispatching cp) (.dispatched c given)
        (s.dispatched c name cp given)
  | waited (cp : ℕ) (taskId : JsString) (given : Except Unit JsString) :
      CallTurn opts s c kind name (.waiting cp taskId) (.waited c given)
        (s.waited opts c name cp taskId given)
  | produced (cp : ℕ) (value : Option Json) :
      CallTurn opts s c kind name (.producing cp) (.produced c (.ok value))
        (s.setPhase c (.produced cp value))
  | continued (cp : ℕ) (value : Option Json) :
      CallTurn opts s c kind name (.produced cp value) (.continues c)
        (s.continued opts c name cp value)
  | finished (result : Option JsString) :
      CallTurn opts s c kind name (.saved result) (.finishes c) (s.setPhase c (.resolved result))

/-- What the only job does. -/
inductive JobTurn (s : Orchestrator (Option Json)) (job : Job) :
    OrchestratorEvent (Option Json) → Orchestrator (Option Json) → Prop
  | started (hp : job.phase = .queued) : JobTurn s job .jobStarts (s.jobStarted job [])
  | loaded (ref : LoadRef) (ok : Bool) (hp : job.phase = .loading ref)
      (ho : s.outcome ref = some ok) : JobTurn s job .jobLoaded (s.jobLoaded job [] ok)
  | saved (snap : Snapshot) (hp : job.phase = .writing snap false) :
      JobTurn s job .storeActs { s with
        jobs := [{ job with phase := .writing snap true }]
        store := some snap.record
        flushed := snap.written
        storeLedger := snap.ledger }
  | returned (snap : Snapshot) (hp : job.phase = .writing snap true) :
      JobTurn s job .jobReturns (s.jobSettled job [] true)

/-- Only `c` is in a phase that is not over. -/
theorem OthersOver.eq {kind kind' : CallKind} {name name' : JsString}
    {phase phase' : CallPhase (Option Json)} (h : OthersOver c s)
    (hc : s.calls c = some ⟨kind, name, phase⟩) {x : ℕ}
    (hx : s.calls x = some ⟨kind', name', phase'⟩) (hopen : ¬ phase'.Over) :
    x = c ∧ kind' = kind ∧ name' = name ∧ phase' = phase := by
  by_cases hxc : x = c
  · subst hxc
    obtain ⟨rfl, rfl, rfl⟩ := StepCall.mk.inj (Option.some.inj (hx.symm.trans hc))
    exact ⟨rfl, rfl, rfl, rfl⟩
  · exact absurd (h x _ hx hxc).2 hopen

theorem LoadsOver.not_read {l : ℕ → Prop} (h : LoadsOver s l) {x : ℕ}
    (hx : x < s.loadCount ∧ (s.loads x).phase = .reading ∨
      ∃ record ledger, (s.loads x).phase = .read record ledger) : l x := by
  by_contra hno
  rcases h x hno with ⟨hlt, ok, hp⟩ | ⟨hle, hp⟩
  · rcases hx with ⟨-, hp'⟩ | ⟨record, ledger, hp'⟩ <;> exact absurd (hp.symm.trans hp') (by simp)
  · rcases hx with ⟨hlt, -⟩ | ⟨record, ledger, hp'⟩
    · exact absurd hlt (not_lt.mpr hle)
    · exact absurd (hp.symm.trans hp') (by simp)

/-- **With no load and no job under way only the call goes on.** -/
theorem call_turn {kind : CallKind} {name : JsString} {phase : CallPhase (Option Json)}
    (hothers : OthersOver c s) (hloads : LoadsOver s fun _ => False) (hjobs : s.jobs = [])
    (hc : s.calls c = some ⟨kind, name, phase⟩) (hown : r.Allows e)
    (hstep : s.step opts e = some s') : CallTurn opts s c kind name phase e s' := by
  have hnojob : ∀ job rest, s.jobs ≠ job :: rest := by simp [hjobs]
  cases transition hstep with
  | storeRead l hl hp => exact (hloads.not_read (.inl ⟨hl, hp⟩)).elim
  | loadReturned l record ledger hp => exact (hloads.not_read (.inr ⟨record, ledger, hp⟩)).elim
  | callLoaded x kind' name' generation ref ok hx ho =>
      obtain ⟨rfl, rfl, rfl, rfl⟩ := hothers.eq hc hx id
      exact .loaded generation ref ok ho
  | callChecked x kind' name' generation cp hx =>
      obtain ⟨rfl, rfl, rfl, rfl⟩ := hothers.eq hc hx id
      exact .checked generation cp
  | entered x kind' name' cp hx =>
      obtain ⟨rfl, rfl, rfl, rfl⟩ := hothers.eq hc hx id
      exact .entered cp
  | dispatched x kind' name' cp given hx =>
      obtain ⟨rfl, rfl, rfl, rfl⟩ := hothers.eq hc hx id
      exact .dispatched cp given
  | waited x kind' name' cp taskId given hx =>
      obtain ⟨rfl, rfl, rfl, rfl⟩ := hothers.eq hc hx id
      exact .waited cp taskId given
  | produced x kind' name' cp value hx =>
      obtain ⟨rfl, rfl, rfl, rfl⟩ := hothers.eq hc hx id
      exact .produced cp value
  | notProduced x kind' name' cp hx =>
      obtain ⟨_, _, -, hgiven⟩ := hown
      exact absurd hgiven (by simp)
  | continued x kind' name' cp value hx =>
      obtain ⟨rfl, rfl, rfl, rfl⟩ := hothers.eq hc hx id
      exact .continued cp value
  | finished x kind' name' result hx =>
      obtain ⟨rfl, rfl, rfl, rfl⟩ := hothers.eq hc hx id
      exact .finished result
  | jobStarted job rest hj hp => exact absurd hj (hnojob job rest)
  | jobLoaded job rest ref ok hj hp ho => exact absurd hj (hnojob job rest)
  | saveActed job rest snap hj hp => exact absurd hj (hnojob job rest)
  | clearActed job rest hj hp => exact absurd hj (hnojob job rest)
  | jobReturned job rest hj hp => exact absurd hj (hnojob job rest)
  | _ => exact hown.elim

/-- A call that waits for its save does nothing. -/
theorem not_saving {kind : CallKind} {name : JsString} {result : Option JsString}
    (hothers : OthersOver c s) (hc : s.calls c = some ⟨kind, name, .saving result⟩) {x : ℕ}
    {kind' : CallKind} {name' : JsString} {phase : CallPhase (Option Json)}
    (hx : s.calls x = some ⟨kind', name', phase⟩) (hopen : ¬ phase.Over) :
    phase = .saving result := (hothers.eq hc hx hopen).2.2.2

/-- **With one save under way, and the call waiting for it, only the save goes on.** -/
theorem job_turn {kind : CallKind} {name : JsString} {result : Option JsString} {job : Job}
    (hothers : OthersOver c s) (hloads : LoadsOver s fun _ => False)
    (hjobs : s.jobs = [job]) (hsave : ∀ acted, job.phase ≠ .clearing acted)
    (hc : s.calls c = some ⟨kind, name, .saving result⟩) (hown : r.Allows e)
    (hstep : s.step opts e = some s') : JobTurn s job e s' := by
  have hjob : ∀ job' rest, s.jobs = job' :: rest → job' = job ∧ rest = [] := by
    intro job' rest hj
    obtain ⟨rfl, rfl⟩ := List.cons.inj (hjobs.symm.trans hj)
    exact ⟨rfl, rfl⟩
  cases transition hstep with
  | storeRead l hl hp => exact (hloads.not_read (.inl ⟨hl, hp⟩)).elim
  | loadReturned l record ledger hp => exact (hloads.not_read (.inr ⟨record, ledger, hp⟩)).elim
  | callLoaded x kind' name' generation ref ok hx ho =>
      exact absurd (not_saving hothers hc hx id) (by simp)
  | callChecked x kind' name' generation cp hx =>
      exact absurd (not_saving hothers hc hx id) (by simp)
  | entered x kind' name' cp hx => exact absurd (not_saving hothers hc hx id) (by simp)
  | dispatched x kind' name' cp given hx => exact absurd (not_saving hothers hc hx id) (by simp)
  | waited x kind' name' cp taskId given hx =>
      exact absurd (not_saving hothers hc hx id) (by simp)
  | produced x kind' name' cp value hx => exact absurd (not_saving hothers hc hx id) (by simp)
  | notProduced x kind' name' cp hx => exact absurd (not_saving hothers hc hx id) (by simp)
  | continued x kind' name' cp value hx => exact absurd (not_saving hothers hc hx id) (by simp)
  | finished x kind' name' given hx => exact absurd (not_saving hothers hc hx id) (by simp)
  | jobStarted job' rest hj hp =>
      obtain ⟨rfl, rfl⟩ := hjob job' rest hj
      exact .started hp
  | jobLoaded job' rest ref ok hj hp ho =>
      obtain ⟨rfl, rfl⟩ := hjob job' rest hj
      exact .loaded ref ok hp ho
  | saveActed job' rest snap hj hp =>
      obtain ⟨rfl, rfl⟩ := hjob job' rest hj
      exact .saved snap hp
  | clearActed job' rest hj hp =>
      obtain ⟨rfl, rfl⟩ := hjob job' rest hj
      exact absurd hp (hsave false)
  | jobReturned job' rest hj hp =>
      obtain ⟨rfl, rfl⟩ := hjob job' rest hj
      rcases hp with ⟨snap, hp⟩ | hp
      · exact .returned snap hp
      · exact absurd hp (hsave true)
  | _ => exact hown.elim

end Kaiban.Orchestrator
