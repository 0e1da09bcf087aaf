/-
When a call that resolves finds its step in the store.

A call resolves once its save has taken effect, and that save was taken after its step was
written, so the store has the step, unless another call of the name has written another
result in between.  A call that finds its step in memory resolves at once, and the store may
not have the step then: its save may have failed, or may still wait.
-/
import Kaiban.Proofs.Orchestrator.Stored

open JsString

namespace Kaiban

/-- The calls that have a step of their own to save are no `isResuming`, and none has the
reserved name. -/
def StepCall.Named {ν : Type} (call : StepCall ν) : Prop :=
  match call.phase with
  | .loading _ _ => call.kind = .isResuming ∨ call.name ≠ spendEntry
  | .answered _ => True
  | .rejected _ => True
  | _ => call.name ≠ spendEntry

namespace Orchestrator

section

variable {ν : Type} {opts : OrchestratorOptions ν} {s s' : Orchestrator ν}

/-! ### What is asked of a run -/

/-- Another call of the name waits for its save, or is about to return from it, with another
result. -/
def contends (s : Orchestrator ν) (name : JsString) (result : Option JsString) : Bool :=
  (List.range s.callCount).any fun d =>
    match s.calls d with
    | some ⟨_, other, .saving r⟩ => decide (other = name ∧ r ≠ result)
    | some ⟨_, other, .saved r⟩ => decide (other = name ∧ r ≠ result)
    | _ => false

/-- A call that looks for its step finds none whose save has not taken effect, nor something
that is no step; and no call writes a step another one is saving with another result. -/
def Careful (opts : OrchestratorOptions ν) (s : Orchestrator ν) : OrchestratorEvent ν → Prop
  | .enters c =>
      match s.calls c with
      | some ⟨kind, name, .started cp⟩ => (∀ w ∈ s.writes.drop s.flushed, w.name ≠ name) ∧
          (kind = .memoize ∨ lookup (s.maps cp) name ≠ .inherited)
      | _ => True
  | .dispatched c (.ok taskId) =>
      match s.calls c with
      | some ⟨_, name, .dispatching cp⟩ =>
          (findByTaskId (s.maps cp) taskId).all (fun r => !s.contends name (some r)) = true
      | _ => True
  | .waited c (.ok result) =>
      match s.calls c with
      | some ⟨_, name, .waiting _ _⟩ => s.contends name (some result) = false
      | _ => True
  | .continues c =>
      match s.calls c with
      | some ⟨_, name, .produced _ value⟩ =>
          (opts.stringify value).all (fun r => !s.contends name r) = true
      | _ => True
  | _ => True

instance (s : Orchestrator ν) (e : OrchestratorEvent ν) : Decidable (Careful opts s e) := by
  unfold Careful
  split
  · split <;> infer_instance
  · split <;> infer_instance
  · split <;> infer_instance
  · split <;> infer_instance
  · infer_instance

/-- The record in the store has the step with this result. -/
def InStore (s : Orchestrator ν) (name : JsString) (result : Option JsString) : Prop :=
  ∃ record entry, s.store = some record ∧ record.get name = some entry ∧ entry.result = result

variable [Arithmetic] in
/-- A call that resolves at this step leaves its step in the store. -/
def ResolvesDurably (opts : OrchestratorOptions ν) (s : Orchestrator ν)
    (e : OrchestratorEvent ν) : Prop :=
  ∀ s' c kind name result, s.step opts e = some s' →
    s'.calls c = some ⟨kind, name, .resolved result⟩ →
    s.calls c ≠ some ⟨kind, name, .resolved result⟩ → s'.InStore name result

/-! ### The names of calls -/

def Named (s : Orchestrator ν) : Prop := ∀ c call, s.calls c = some call → call.Named

theorem named_fresh (budget : WorkflowBudget) (store : Option Checkpoint) (ledger : List Charge) :
    Named (fresh budget store ledger : Orchestrator ν) :=
  fun _ _ h => absurd h (by simp [fresh])

variable [Arithmetic] in
theorem named_step {e : OrchestratorEvent ν} (h : Named s) (hstep : s.step opts e = some s') :
    Named s' := by
  intro c call hc
  cases call_step hstep c with
  | same h' => exact h c call (h' ▸ hc)
  | called kind name phase hcount he _ hphase h' =>
      obtain rfl := Option.some.inj (hc.symm.trans h')
      subst he
      cases transition hstep with
      | called kind name =>
          rcases s.startCall_cases kind name with ⟨-, -, hs⟩ | ⟨hname, -⟩
          · rw [hs] at h'
            have hself : (s.newCall ⟨kind, name, .rejected reservedError⟩).calls c
                = some ⟨kind, name, .rejected reservedError⟩ := if_pos hcount
            obtain ⟨-, -, rfl⟩ := StepCall.mk.inj (Option.some.inj (h'.symm.trans hself))
            trivial
          · rcases hphase with rfl | ⟨rfl, -⟩
            · trivial
            · exact hname
  | moved kind name phase phase' hold hmoves h' =>
      obtain rfl := Option.some.inj (hc.symm.trans h')
      have hnamed := h c _ hold
      cases hmoves with
      | loaded generation ref ho hkind => exact hnamed.resolve_left hkind
      | checked => exact hnamed
      | replayed => exact hnamed
      | inherited => exact hnamed
      | waits => exact hnamed
      | produced => exact hnamed
      | saved => exact hnamed
      | resolved => exact hnamed
      | _ => trivial
  | began kind name cp he hold _ _ _ h' =>
      obtain rfl := Option.some.inj (hc.symm.trans h')
      have hnamed : name ≠ spendEntry := h c _ hold
      unfold StepCall.Named
      dsimp only
      split <;> first | exact hnamed | trivial | exact .inr hnamed
  | stored kind name phase cp entry hold hwrites _ h' =>
      obtain rfl := Option.some.inj (hc.symm.trans h')
      have hnamed := h c _ hold
      cases hwrites <;> exact hnamed
  | signalled kind name cp hold h' =>
      obtain rfl := Option.some.inj (hc.symm.trans h')
      trivial
  | crashed budget heq =>
      subst heq
      exact absurd hc (by simp [fresh])

/-! ### The steps that calls save -/

/-- The call has written this result, among the first `n` steps, and none was written under the
name since with another one. -/
def Kept (s : Orchestrator ν) (c : ℕ) (name : JsString) (result : Option JsString) (n : ℕ) :
    Prop :=
  ∃ i w, i < n ∧ s.writes[i]? = some w ∧ w.call = c ∧ w.name = name ∧
    ∀ j v, i ≤ j → s.writes[j]? = some v → v.name = name → v.entry.result = result

/-- The calls that save a step have written it, and their saves were taken after that. -/
structure Saving (s : Orchestrator ν) : Prop where
  saving : ∀ c kind name result, s.calls c = some ⟨kind, name, .saving result⟩ →
    Kept s c name result s.writes.length
  saved : ∀ c kind name result, s.calls c = some ⟨kind, name, .saved result⟩ →
    Kept s c name result s.flushed
  taken : ∀ job ∈ s.jobs, ∀ c snap acted, job.kind = .save (some c) →
    job.phase = .writing snap acted → ∀ i w, s.writes[i]? = some w → w.call = c → i < snap.written

theorem saving_fresh (budget : WorkflowBudget) (store : Option Checkpoint)
    (ledger : List Charge) : Saving (fresh budget store ledger : Orchestrator ν) where
  saving _ _ _ _ h := absurd h (by simp [fresh])
  saved _ _ _ _ h := absurd h (by simp [fresh])
  taken _ h := absurd h List.not_mem_nil

theorem contends_of {name : JsString} {result r : Option JsString} {d : ℕ} {kind : CallKind}
    (hd : d < s.callCount) (h : s.calls d = some ⟨kind, name, .saving r⟩ ∨
      s.calls d = some ⟨kind, name, .saved r⟩) (hr : r ≠ result) :
    s.contends name result = true := by
  unfold contends
  rw [List.any_eq_true]
  refine ⟨d, List.mem_range.mpr hd, ?_⟩
  rcases h with h | h <;> rw [h] <;> simpa using hr

/-- A step that is written is not contended for. -/
theorem Careful.uncontended {e : OrchestratorEvent ν} (h : Careful opts s e) {c : ℕ}
    {kind : CallKind} {name : JsString} {phase : CallPhase ν} {cp : ℕ} {entry : StepCheckpoint}
    (hc : s.calls c = some ⟨kind, name, phase⟩) (hw : Writes opts s c name e phase cp entry) :
    s.contends name entry.result = false := by
  cases hw with
  | found cp taskId result hfind =>
      simp only [Careful, hc, hfind] at h
      simpa using h
  | waited cp taskId result =>
      simp only [Careful, hc] at h
      exact h
  | produced cp value result hv =>
      simp only [Careful, hc, hv] at h
      simpa using h

/-- More is written, and none of it under the name with another result. -/
theorem Kept.grow {c : ℕ} {name : JsString} {result : Option JsString} {n n' : ℕ}
    {ws : List Write} (h : Kept s c name result n) (hwrites : s'.writes = s.writes ++ ws)
    (hws : ∀ v ∈ ws, v.name = name → v.entry.result = result) (hn : n ≤ n') :
    Kept s' c name result n' := by
  obtain ⟨i, w, hi, hw, hcall, hname, hafter⟩ := h
  refine ⟨i, w, hi.trans_le hn, ?_, hcall, hname, fun j v hj hv hvname => ?_⟩
  · rw [hwrites]
    exact (List.getElem?_append_left (List.getElem?_eq_some_iff.mp hw).1).trans hw
  · rw [hwrites] at hv
    by_cases hlt : j < s.writes.length
    · rw [List.getElem?_append_left hlt] at hv
      exact hafter j v hj hv hvname
    · rw [List.getElem?_append_right (not_lt.mp hlt)] at hv
      exact hws v (List.mem_of_getElem? hv) hvname

/-- Only the end of its own job lets a call go on. -/
theorem jobSettled_saved {job : Job} {rest : List Job} {ok : Bool} {c : ℕ} {kind : CallKind}
    {name : JsString} {result : Option JsString}
    (h : (s.jobSettled job rest ok).calls c = some ⟨kind, name, .saved result⟩) :
    s.calls c = some ⟨kind, name, .saved result⟩ ∨ ok = true ∧ job.kind = .save (some c) := by
  have hother : ∀ (d : ℕ) (phase : CallPhase ν), d ≠ c →
      ({ s with jobs := rest }.setPhase d phase).calls c = s.calls c :=
    fun d phase hd => if_neg (Ne.symm hd)
  unfold jobSettled at h
  dsimp only at h
  split at h
  · rename_i d hkind
    by_cases hd : d = c
    · subst hd
      split at h
      · rename_i hok
        exact .inr ⟨hok, hkind⟩
      · have hphase : (s.calls d).map (fun call => { call with phase := .rejected (.failed .save) })
            = some ⟨kind, name, .saved result⟩ := (if_pos rfl).symm.trans h
        obtain ⟨call, -, hcall⟩ := Option.map_eq_some_iff.mp hphase
        exact absurd (congrArg StepCall.phase hcall) (by simp)
    · split at h
      · split at h
        · exact .inl ((hother d _ hd).symm.trans h)
        · exact .inl h
      · exact .inl ((hother d _ hd).symm.trans h)
  · exact .inl h

section

variable [Arithmetic]

/-- A call goes on when its save has taken effect. -/
theorem saved_job {e : OrchestratorEvent ν} (hu : Unwiped s) (he : Settles e)
    {c : ℕ} {kind : CallKind} {name : JsString} {result : Option JsString}
    (hc : s.calls c = some ⟨kind, name, .saving result⟩)
    (hc' : s'.calls c = some ⟨kind, name, .saved result⟩) (hstep : s.step opts e = some s') :
    ∃ job ∈ s.jobs, job.kind = .save (some c) ∧ ∃ snap, job.phase = .writing snap true := by
  have hnot : s.calls c ≠ some ⟨kind, name, .saved result⟩ := by
    rw [hc]
    simp
  cases e with
  | jobLoaded =>
      cases transition hstep with
      | jobLoaded job rest ref ok hj hp ho =>
          rcases s.jobLoaded_cases job rest ok with ⟨-, hs⟩ | ⟨-, htrue, -, -⟩ | ⟨-, -, hs⟩
          · rw [hs] at hc'
            rcases jobSettled_saved hc' with hold | ⟨hok, -⟩
            · exact absurd hold hnot
            · exact absurd hok (by simp)
          · exact absurd (htrue.symm.trans hu.cleared) (by simp)
          · rw [hs] at hc'
            exact absurd hc' hnot
  | jobReturns =>
      cases transition hstep with
      | jobReturned job rest hj hp =>
          rcases jobSettled_saved hc' with hold | ⟨-, hkind⟩
          · exact absurd hold hnot
          · refine ⟨job, hj ▸ List.mem_cons_self, hkind, ?_⟩
            rcases hp with ⟨snap, hp⟩ | hp
            · exact ⟨snap, hp⟩
            · exact absurd hp ((hu.jobs job (hj ▸ List.mem_cons_self)).2.1 true)
  | jobThrows =>
      cases transition hstep with
      | jobThrew job rest hj hp =>
          rcases jobSettled_saved hc' with hold | ⟨hok, -⟩
          · exact absurd hold hnot
          · exact absurd hok (by simp)
  | _ => exact absurd he id

/-- A step is written by a call at work, and what it writes is not contended for. -/
theorem written_step {e : OrchestratorEvent ν} (hcareful : Careful opts s e)
    (hstep : s.step opts e = some s') : (∃ budget, s' = fresh budget s.store s.storeLedger) ∨
      ∃ ws, s'.writes = s.writes ++ ws ∧ ∀ v ∈ ws, s.contends v.name v.entry.result = false ∧
        ∃ kind phase cp, s.calls v.call = some ⟨kind, v.name, phase⟩ ∧
          phase.workMap = some cp := by
  cases maps_step hstep with
  | kept _ hwritten =>
      exact .inr ⟨[], by rw [hwritten, List.append_nil], fun v hv => absurd hv List.not_mem_nil⟩
  | wrote c kind name phase cp entry hc hwrites _ _ hwritten _ =>
      refine .inr ⟨_, hwritten, fun v hv => ?_⟩
      rw [List.mem_singleton.mp hv]
      exact ⟨hcareful.uncontended hc hwrites, kind, phase, cp, hc, hwrites.workMap⟩
  | crashed budget heq => exact .inl ⟨budget, heq⟩

/-- What is flushed grows, and is what the job that has reached the store took. -/
theorem flushed_step {e : OrchestratorEvent ν} (hstored : Stored s) (hu : Unwiped s)
    (hstep : s.step opts e = some s') :
    (∃ budget, s' = fresh budget s.store s.storeLedger) ∨ s.flushed ≤ s'.flushed := by
  cases chain_step hstep with
  | quiet _ heq => exact .inr (congrArg Chain.flushed heq).ge
  | queued _ kind _ _ heq => exact .inr (congrArg Chain.flushed heq).ge
  | loading _ _ _ _ _ _ heq => exact .inr (congrArg Chain.flushed heq).ge
  | clearing job rest hj _ hkind _ =>
      exact absurd hkind (hu.jobs job (hj ▸ List.mem_cons_self)).1
  | writing _ _ _ _ _ _ _ heq => exact .inr (congrArg Chain.flushed heq).ge
  | saved job rest snap hj hp heq =>
      have hle := (hstored.writing job (hj ▸ List.mem_cons_self) snap false hp).2.1
      exact .inr (hle.trans_eq (congrArg Chain.flushed heq).symm)
  | wiped job rest hj hp _ => exact absurd hp ((hu.jobs job (hj ▸ List.mem_cons_self)).2.1 false)
  | ended _ _ _ _ _ _ heq => exact .inr (congrArg Chain.flushed heq).ge
  | crashed budget heq => exact .inl ⟨budget, heq⟩

/-- The saves under way were taken after the steps of the calls that wait for them. -/
theorem Saving.taken_step {e : OrchestratorEvent ν} {ws : List Write} (h : Saving s)
    (hu : Unwiped s) (howners : OwnersWrote s) (hwrites : s'.writes = s.writes ++ ws)
    (hws : ∀ v ∈ ws, ∃ kind phase cp, s.calls v.call = some ⟨kind, v.name, phase⟩ ∧
      phase.workMap = some cp) (hstep : s.step opts e = some s') :
    ∀ job ∈ s'.jobs, ∀ c snap acted, job.kind = .save (some c) → job.phase = .writing snap acted →
      ∀ i w, s'.writes[i]? = some w → w.call = c → i < snap.written := by
  -- A call that waits for a save writes no more.
  have hidle : ∀ c ∈ s.owners, ∀ (i : ℕ) (w : Write), s'.writes[i]? = some w → w.call = c →
      s.writes[i]? = some w := by
    intro c hc i w hw hcall
    rw [hwrites] at hw
    by_cases hlt : i < s.writes.length
    · rwa [List.getElem?_append_left hlt] at hw
    · rw [List.getElem?_append_right (not_lt.mp hlt)] at hw
      obtain ⟨kind, phase, cp, hcalls, hwork⟩ := hws w (List.mem_of_getElem? hw)
      obtain ⟨v, hv, hvcall⟩ := howners c hc
      obtain ⟨-, -, kind', phase', hcalls', hends⟩ := hu.first.held.written v hv
      rw [hvcall, ← hcall, hcalls] at hcalls'
      obtain ⟨-, -, rfl⟩ := StepCall.mk.inj (Option.some.inj hcalls')
      exact absurd hends (CallPhase.not_ends_of_workMap hwork _)
  have hold : ∀ job ∈ s.jobs, ∀ c snap acted, job.kind = .save (some c) →
      job.phase = .writing snap acted →
      ∀ i w, s'.writes[i]? = some w → w.call = c → i < snap.written := by
    intro job hmem c snap acted hkind hp i w hw hcall
    have hc : c ∈ s.owners := mem_owners.mpr ⟨job, hmem, hkind⟩
    exact h.taken job hmem c snap acted hkind hp i w (hidle c hc i w hw hcall) hcall
  have hrest : ∀ (job : Job) (rest : List Job), s.jobs = job :: rest → ∀ x ∈ rest, x ∈ s.jobs :=
    fun job rest hj x hx => hj ▸ List.mem_cons_of_mem _ hx
  intro x hx c snap acted hkind hp
  cases chain_step hstep with
  | quiet _ heq =>
      have hjobs : s'.jobs = s.jobs := congrArg Chain.jobs heq
      exact hold x (hjobs ▸ hx) c snap acted hkind hp
  | queued _ kind _ _ heq =>
      have hjobs : s'.jobs = s.jobs ++ [⟨s.jobCount, kind, .queued⟩] := congrArg Chain.jobs heq
      rw [hjobs] at hx
      rcases List.mem_append.mp hx with hx | hx
      · exact hold x hx c snap acted hkind hp
      · rw [List.mem_singleton.mp hx] at hp
        exact absurd hp (by simp)
  | loading job rest _ hj _ _ heq =>
      have hjobs : s'.jobs = { job with phase := .loading s.ensureLoaded.2 } :: rest :=
        congrArg Chain.jobs heq
      rw [hjobs] at hx
      rcases List.mem_cons.mp hx with rfl | hx
      · exact absurd hp (by simp)
      · exact hold x (hrest job rest hj x hx) c snap acted hkind hp
  | clearing job rest hj _ hwipe _ =>
      exact absurd hwipe (hu.jobs job (hj ▸ List.mem_cons_self)).1
  | writing job rest ref hj _ _ _ heq =>
      have hjobs : s'.jobs = { job with phase := .writing s.snapshot false } :: rest :=
        congrArg Chain.jobs heq
      rw [hjobs] at hx
      rcases List.mem_cons.mp hx with rfl | hx
      · obtain ⟨rfl, -⟩ := JobPhase.writing.inj hp
        intro i w hw hcall
        have hc : c ∈ s.owners := mem_owners.mpr ⟨job, hj ▸ List.mem_cons_self, hkind⟩
        exact (List.getElem?_eq_some_iff.mp (hidle c hc i w hw hcall)).1
      · exact hold x (hrest job rest hj x hx) c snap acted hkind hp
  | saved job rest snap' hj hp' heq =>
      have hjobs : s'.jobs = { job with phase := .writing snap' true } :: rest :=
        congrArg Chain.jobs heq
      rw [hjobs] at hx
      rcases List.mem_cons.mp hx with rfl | hx
      · obtain ⟨rfl, -⟩ := JobPhase.writing.inj hp
        exact hold job (hj ▸ List.mem_cons_self) c _ false hkind hp'
      · exact hold x (hrest job rest hj x hx) c snap acted hkind hp
  | wiped job rest hj hp' _ =>
      exact absurd hp' ((hu.jobs job (hj ▸ List.mem_cons_self)).2.1 false)
  | ended _ _ job rest hj _ heq =>
      have hjobs : s'.jobs = rest := congrArg Chain.jobs heq
      exact hold x (hrest job rest hj x (hjobs ▸ hx)) c snap acted hkind hp
  | crashed budget heq =>
      subst heq
      exact absurd hx List.not_mem_nil

/-- **Every careful step keeps the steps that are saved what they were.** -/
theorem saving_step {e : OrchestratorEvent ν} (h : Saving s) (hu : Unwiped s) (hstored : Stored s)
    (howners : OwnersWrote s) (hcareful : Careful opts s e) (hstep : s.step opts e = some s') :
    Saving s' := by
  rcases written_step hcareful hstep with ⟨budget, rfl⟩ | ⟨ws, hwrites, hws⟩
  · exact saving_fresh budget s.store s.storeLedger
  rcases flushed_step hstored hu hstep with ⟨budget, rfl⟩ | hflushed
  · exact saving_fresh budget s.store s.storeLedger
  have hlength : s.writes.length ≤ s'.writes.length := by
    rw [hwrites, List.length_append]
    exact Nat.le_add_right _ _
  -- What a call saves is not contended for.
  have hsame : ∀ {d : ℕ} {kind : CallKind} {name : JsString} {r : Option JsString},
      (s.calls d = some ⟨kind, name, .saving r⟩ ∨ s.calls d = some ⟨kind, name, .saved r⟩) →
      ∀ v ∈ ws, v.name = name → v.entry.result = r := by
    intro d kind name r hd v hv hname
    by_contra hne
    have hlt : d < s.callCount := hd.elim (hu.first.held.counted d _) (hu.first.held.counted d _)
    have hcontends := contends_of hlt hd (Ne.symm hne)
    rw [← hname, (hws v hv).1] at hcontends
    exact absurd hcontends (by simp)
  refine ⟨fun c kind name result hc => ?_, fun c kind name result hc => ?_,
    h.taken_step hu howners hwrites (fun v hv => (hws v hv).2) hstep⟩
  · cases call_step hstep c with
    | same h' =>
        have hold := h'.symm.trans hc
        exact (h.saving c kind name result hold).grow hwrites (hsame (.inl hold)) hlength
    | called _ _ phase _ _ _ hphase h' =>
        obtain ⟨-, -, rfl⟩ := StepCall.mk.inj (Option.some.inj (hc.symm.trans h'))
        rcases hphase with hno | ⟨hno, -⟩ <;> exact absurd hno (by simp)
    | moved _ _ phase phase' hold hmoves h' =>
        obtain ⟨-, -, rfl⟩ := StepCall.mk.inj (Option.some.inj (hc.symm.trans h'))
        cases hmoves
    | began _ _ cp _ _ _ _ _ h' =>
        have hphase := (StepCall.mk.inj (Option.some.inj (hc.symm.trans h'))).2.2
        split at hphase <;> exact absurd hphase (by simp)
    | stored kind' name' phase cp entry hold _ hwritten h' =>
        obtain ⟨rfl, rfl, hphase⟩ := StepCall.mk.inj (Option.some.inj (hc.symm.trans h'))
        obtain rfl := CallPhase.saving.inj hphase
        refine ⟨s.writes.length, ⟨cp, c, name, entry⟩, ?_, ?_, rfl, rfl, fun j v hj hv _ => ?_⟩
        · rw [hwritten, List.length_append]
          exact Nat.lt_succ_self _
        · rw [hwritten]
          exact List.getElem?_concat_length
        · rw [hwritten, List.getElem?_append_right hj] at hv
          rw [List.mem_singleton.mp (List.mem_of_getElem? hv)]
    | signalled _ _ _ _ h' => exact absurd (hc.symm.trans h') (by simp)
    | crashed budget heq =>
        subst heq
        exact absurd hc (by simp [fresh])
  · cases call_step hstep c with
    | same h' =>
        have hold := h'.symm.trans hc
        exact (h.saved c kind name result hold).grow hwrites (hsame (.inr hold)) hflushed
    | called _ _ phase _ _ _ hphase h' =>
        obtain ⟨-, -, rfl⟩ := StepCall.mk.inj (Option.some.inj (hc.symm.trans h'))
        rcases hphase with hno | ⟨hno, -⟩ <;> exact absurd hno (by simp)
    | moved kind' name' phase phase' hold hmoves h' =>
        obtain ⟨rfl, rfl, rfl⟩ := StepCall.mk.inj (Option.some.inj (hc.symm.trans h'))
        cases hmoves with
        | saved _ he _ howner =>
            obtain ⟨job, hmem, hkind, snap, hp⟩ := saved_job hu he hold hc hstep
            obtain ⟨i, w, -, hw, hcall, hname, hafter⟩ := h.saving c kind name result hold
            have hlt := h.taken job hmem c snap true hkind hp i w hw hcall
            have htaken := (hstored.writing job hmem snap true hp).2.2.2.2 rfl
            have hkept : Kept s c name result s.flushed :=
              ⟨i, w, htaken ▸ hlt, hw, hcall, hname, hafter⟩
            exact hkept.grow hwrites (hsame (.inl hold)) hflushed
    | began _ _ cp _ _ _ _ _ h' =>
        have hphase := (StepCall.mk.inj (Option.some.inj (hc.symm.trans h'))).2.2
        split at hphase <;> exact absurd hphase (by simp)
    | stored _ _ _ _ _ _ _ _ h' => exact absurd (hc.symm.trans h') (by simp)
    | signalled _ _ _ _ h' => exact absurd (hc.symm.trans h') (by simp)
    | crashed budget heq =>
        subst heq
        exact absurd hc (by simp [fresh])

end

/-! ### Calls that resolve -/

/-- The last of the steps of a name decides. -/
theorem get_applyWrites_last {base : Checkpoint} {ws : List Write} {name : JsString}
    {result : Option JsString} {i : ℕ} {w : Write} (hw : ws[i]? = some w) (hname : w.name = name)
    (hafter : ∀ j v, i ≤ j → ws[j]? = some v → v.name = name → v.entry.result = result) :
    ∃ entry, (applyWrites base ws).get name = some entry ∧ entry.result = result := by
  obtain ⟨hlt, hget⟩ := List.getElem?_eq_some_iff.mp hw
  have hsplit : ws = ws.take i ++ w :: ws.drop (i + 1) := by
    rw [← hget, List.getElem_cons_drop, List.take_append_drop]
  have hrest : applyWrites base ws
      = applyWrites ((applyWrites base (ws.take i)).set w.name w.entry) (ws.drop (i + 1)) := by
    conv_lhs => rw [hsplit]
    rw [applyWrites_append]
    rfl
  rw [hrest]
  have hthere : (((applyWrites base (ws.take i)).set w.name w.entry).get name).isSome = true := by
    rw [hname, OrderedMap.get_set_self]
    rfl
  obtain ⟨entry, hentry⟩ := Option.isSome_iff_exists.mp
    (get_applyWrites_isSome (ws.drop (i + 1)) hthere)
  refine ⟨entry, hentry, ?_⟩
  rcases get_applyWrites hentry with hbase | ⟨v, hv, hvname, rfl⟩
  · rw [hname, OrderedMap.get_set_self] at hbase
    rw [← Option.some.inj hbase]
    exact hafter i w le_rfl hw hname
  · obtain ⟨k, hk⟩ := List.mem_iff_getElem?.mp hv
    rw [List.getElem?_drop] at hk
    exact hafter (i + 1 + k) v (by omega) hk hvname

/-- What the first steps have is in the store. -/
theorem Stored.inStore (h : Stored s) (hready : s.Ready) {name : JsString} {entry : StepCheckpoint}
    (hname : name ≠ spendEntry) (hget : (s.applied s.flushed).get name = some entry) :
    s.InStore name entry.result := by
  have hstore := (h.store hready name hname).trans hget
  cases hs : s.store with
  | none =>
      rw [hs] at hstore
      exact absurd hstore (by simp [OrderedMap.get_empty])
  | some record =>
      rw [hs] at hstore
      exact ⟨record, entry, hs, hstore, rfl⟩

theorem InStore.of_store {name : JsString} {result : Option JsString} (h : s.InStore name result)
    (hstore : s'.store = s.store) : s'.InStore name result := by
  obtain ⟨record, entry, hrecord, hrest⟩ := h
  exact ⟨record, entry, hstore.trans hrecord, hrest⟩

/-- What the steps of a run keep. -/
structure DurableKept (s : Orchestrator ν) : Prop where
  unwiped : Unwiped s
  stored : Stored s
  named : Named s
  owners : OwnersWrote s
  saving : Saving s

theorem durableKept_fresh (budget : WorkflowBudget) (store : Option Checkpoint)
    (ledger : List Charge) : DurableKept (fresh budget store ledger : Orchestrator ν) where
  unwiped := unwiped_fresh budget store ledger
  stored := stored_fresh budget store ledger
  named := named_fresh budget store ledger
  owners c hc := by
    obtain ⟨job, hmem, -⟩ := mem_owners.mp hc
    exact absurd hmem List.not_mem_nil
  saving := saving_fresh budget store ledger

/-- A step found in memory is in the store, when its save has taken effect. -/
theorem DurableKept.found (h : DurableKept s) {c : ℕ} {kind : CallKind} {name : JsString} {cp : ℕ}
    {entry : StepCheckpoint} (hc : s.calls c = some ⟨kind, name, .started cp⟩)
    (hget : (s.maps cp).get name = some entry)
    (hflushed : ∀ w ∈ s.writes.drop s.flushed, w.name ≠ name) : s.InStore name entry.result := by
  obtain ⟨hready, rfl⟩ := h.unwiped.given c _ cp hc rfl
  refine h.stored.inStore hready (h.named c _ hc) ?_
  have hsteps : s.steps = applyWrites (s.applied s.flushed) (s.writes.drop s.flushed) := by
    unfold applied
    rw [h.stored.steps hready, applied_all, ← applyWrites_append, List.take_append_drop]
  rw [← get_applyWrites_of_ne hflushed, ← hsteps]
  exact hget

/-- A step that was saved is in the store. -/
theorem DurableKept.saved (h : DurableKept s) {c : ℕ} {kind : CallKind} {name : JsString}
    {result : Option JsString} (hc : s.calls c = some ⟨kind, name, .saved result⟩) :
    s.InStore name result := by
  obtain ⟨i, w, hi, hw, -, hname, hafter⟩ := h.saving.saved c kind name result hc
  have hready : s.Ready := by
    by_contra hnot
    have hnone := (h.unwiped.first.untouched hnot).unwritten h.unwiped.first.held
    rw [hnone] at hw
    exact absurd hw (by simp)
  have htake : (s.writes.take s.flushed)[i]? = some w := by
    rw [List.getElem?_take_of_lt hi]
    exact hw
  have hlast : ∀ j v, i ≤ j → (s.writes.take s.flushed)[j]? = some v → v.name = name →
      v.entry.result = result := by
    intro j v hj hv
    refine hafter j v hj ?_
    rw [List.getElem?_take] at hv
    split at hv
    · exact hv
    · exact absurd hv (by simp)
  obtain ⟨entry, hget, rfl⟩ := get_applyWrites_last htake hname hlast
  exact h.stored.inStore hready (h.named c _ hc) hget

section

variable [Arithmetic]

/-- Only the store's own step changes the record in it. -/
theorem store_step {e : OrchestratorEvent ν} (he : e ≠ .storeActs) (hon : ¬ Crashes e)
    (hstep : s.step opts e = some s') : s'.store = s.store := by
  cases chain_step hstep with
  | quiet _ heq => exact congrArg Chain.store heq
  | queued _ _ _ _ heq => exact congrArg Chain.store heq
  | loading _ _ _ _ _ _ heq => exact congrArg Chain.store heq
  | clearing _ _ _ _ _ heq => exact congrArg Chain.store heq
  | writing _ _ _ _ _ _ _ heq => exact congrArg Chain.store heq
  | saved => exact absurd rfl he
  | wiped => exact absurd rfl he
  | ended _ _ _ _ _ _ heq => exact congrArg Chain.store heq
  | crashed _ _ => exact absurd trivial hon

theorem durableKept_step {e : OrchestratorEvent ν} (h : DurableKept s) (hclear : e ≠ .clear)
    (hcareful : Careful opts s e) (hstep : s.step opts e = some s') : DurableKept s' where
  unwiped := unwiped_step h.unwiped hclear hstep
  stored := stored_step h.stored h.unwiped hclear hstep
  named := named_step h.named hstep
  owners := ownersWrote_step h.owners hstep
  saving := saving_step h.saving h.unwiped h.stored h.owners hcareful hstep

/-- **A careful step leaves the steps of the calls that resolve in the store.** -/
theorem DurableKept.resolves {e : OrchestratorEvent ν} (h : DurableKept s)
    (hcareful : Careful opts s e) : ResolvesDurably opts s e := by
  intro s' c kind name result hstep hc hnew
  cases call_step hstep c with
  | same h' => exact absurd (h'.symm.trans hc) hnew
  | called _ _ phase _ _ _ hphase h' =>
      obtain ⟨-, -, rfl⟩ := StepCall.mk.inj (Option.some.inj (hc.symm.trans h'))
      rcases hphase with hno | ⟨hno, -⟩ <;> exact absurd hno (by simp)
  | moved kind' name' phase phase' hold hmoves h' =>
      obtain ⟨rfl, rfl, rfl⟩ := StepCall.mk.inj (Option.some.inj (hc.symm.trans h'))
      cases hmoves with
      | replayed cp entry hget hparse =>
          simp only [Careful, hold] at hcareful
          exact (h.found hold hget hcareful.1).of_store (store_step (by simp) id hstep)
      | inherited cp hget hname hkind =>
          simp only [Careful, hold] at hcareful
          have hlook : lookup (s.maps cp) name = .inherited := by simp [lookup, hget, hname]
          exact absurd hlook (hcareful.2.resolve_left hkind)
      | resolved => exact (h.saved hold).of_store (store_step (by simp) id hstep)
  | began _ _ cp _ _ _ _ _ h' =>
      have hphase := (StepCall.mk.inj (Option.some.inj (hc.symm.trans h'))).2.2
      split at hphase <;> exact absurd hphase (by simp)
  | stored _ _ _ _ _ _ _ _ h' => exact absurd (hc.symm.trans h') (by simp)
  | signalled _ _ _ _ h' => exact absurd (hc.symm.trans h') (by simp)
  | crashed budget heq =>
      subst heq
      exact absurd hc (by simp [fresh])

/-- **Whoever resolves has its step in the store**, along every run without a `clear()` whose
steps are careful. -/
theorem resolved_in_store {budget : WorkflowBudget} {store : Option Checkpoint}
    {ledger : List Charge} {es : List (OrchestratorEvent ν)} (hclear : ∀ e ∈ es, e ≠ .clear)
    (hcareful : Steps.Along (step opts) (Careful opts) (fresh budget store ledger) es) :
    Steps.Along (step opts) (ResolvesDurably opts) (fresh budget store ledger) es := by
  have hkept : DurableKept (fresh budget store ledger : Orchestrator ν) :=
    durableKept_fresh budget store ledger
  refine Steps.along_of_invariant (P := DurableKept) (fun s e s' h he hc hstep => ?_)
    (fun s e h hc => h.resolves hc) hkept hclear hcareful
  exact durableKept_step h he hc hstep

end

end

/-! ### Two runs -/

attribute [local instance] Arithmetic.double

/-- A step is dispatched and answered, and its save begins. -/
def answered : List (OrchestratorEvent Unit) :=
  [.call .runStep (js "plan"), .storeReads 0, .loadReturns 0, .loaded 0, .checked 0, .enters 0,
    .dispatched 0 (.ok (js "task-1")), .waited 0 (.ok (js "done")), .jobStarts, .jobLoaded]

/-- The save takes effect, and the step is asked for again. -/
def savedAndReplayed : List (OrchestratorEvent Unit) :=
  answered ++ [.storeActs, .jobReturns, .finishes 0, .call .runStep (js "plan"), .loaded 1,
    .checked 1, .enters 1]

theorem resolved_in_store_replayed : Steps.Along (step plainOptions) (ResolvesDurably plainOptions)
    (fresh noBudget none []) savedAndReplayed :=
  resolved_in_store (by simp [savedAndReplayed, answered]) (by decide +kernel)

/-- The save fails, and the call is made again. -/
def retried : List (OrchestratorEvent Unit) :=
  answered ++ [.jobThrows, .call .runStep (js "plan"), .loaded 1, .checked 1]

/-- The call has resolved. -/
def hasResolved (s : Orchestrator Unit) (c : ℕ) : Bool :=
  match s.calls c with
  | some ⟨_, _, .resolved _⟩ => true
  | _ => false

theorem hasResolved_iff {s : Orchestrator Unit} {c : ℕ} : s.hasResolved c = true ↔
    ∃ kind name result, s.calls c = some ⟨kind, name, .resolved result⟩ := by
  unfold hasResolved
  split
  · next kind name result hc => exact ⟨fun _ => ⟨kind, name, result, hc⟩, fun _ => rfl⟩
  · next hno =>
      refine ⟨fun h => absurd h (by simp), fun h => ?_⟩
      obtain ⟨kind, name, result, hc⟩ := h
      exact absurd hc (hno kind name result)

/-- The retry resolves, and the store has nothing. -/
theorem retry_not_in_store : ¬ ∀ (opts : OrchestratorOptions Unit) (budget : WorkflowBudget)
    (store : Option Checkpoint) (ledger : List Charge) (es : List (OrchestratorEvent Unit)),
    (∀ e ∈ es, e ≠ .clear) →
      Steps.Along (step opts) (ResolvesDurably opts) (fresh budget store ledger) es := by
  intro h
  have hresolves : (Steps.run (step plainOptions)
      (fresh noBudget none []) retried).any (fun s =>
        !s.hasResolved 1 && (step plainOptions s (.enters 1)).any fun s' =>
          s'.hasResolved 1 && s'.store.isNone) = true := by
    decide +kernel
  obtain ⟨s, hrun, hs⟩ := (Option.any_eq_true _ _).mp hresolves
  obtain ⟨hbefore, hafter⟩ := Bool.and_eq_true_iff.mp hs
  obtain ⟨s', hstep, hs'⟩ := (Option.any_eq_true _ _).mp hafter
  have halong := h plainOptions noBudget none []
    (retried ++ [.enters 1]) (by simp [retried, answered])
  have hdurable : ResolvesDurably plainOptions s (.enters 1) := halong.at_split hrun
  obtain ⟨hresolved, hempty⟩ := Bool.and_eq_true_iff.mp hs'
  obtain ⟨kind, name, result, hc⟩ := hasResolved_iff.mp hresolved
  obtain ⟨record, entry, hstore, -⟩ := hdurable s' 1 kind name result hstep hc fun hold => by
    rw [hasResolved_iff.mpr ⟨kind, name, result, hold⟩] at hbefore
    exact absurd hbefore (by simp)
  rw [hstore] at hempty
  exact absurd hempty (by simp)

end Orchestrator

end Kaiban
