/-
What calls hold, and what they have written.

A call holds a map the instance had when its load ended.  It begins its work at most once,
writes at most one step, and has then only its save to wait for.
-/
import Kaiban.Proofs.Orchestrator.Jobs
import Kaiban.Proofs.Orchestrator.Loads

open JsString

namespace Kaiban

namespace CallPhase

variable {ν : Type}

/-- The map a call was given. -/
def heldMap : CallPhase ν → Option ℕ
  | .loaded _ cp => some cp
  | .started cp => some cp
  | .dispatching cp => some cp
  | .waiting cp _ => some cp
  | .producing cp => some cp
  | .produced cp _ => some cp
  | _ => none

/-- The call has not looked at its map yet. -/
def Early : CallPhase ν → Prop
  | .loading _ _ => True
  | .loaded _ _ => True
  | .started _ => True
  | _ => False

/-- The call has this result, and waits for its save at most. -/
def Ends (result : Option JsString) : CallPhase ν → Prop
  | .saving r => r = result
  | .saved r => r = result
  | .resolved r => r = result
  | .rejected err => err = .failed .save
  | _ => False

theorem heldMap_of_workMap {phase : CallPhase ν} {cp : ℕ} (h : phase.workMap = some cp) :
    phase.heldMap = some cp := by
  cases phase <;> first | exact h | exact absurd h (by simp [workMap])

theorem not_ends_of_workMap {phase : CallPhase ν} {cp : ℕ} (h : phase.workMap = some cp)
    (result : Option JsString) : ¬ phase.Ends result := by
  cases phase <;> first | exact id | exact absurd h (by simp [workMap])

end CallPhase

namespace Orchestrator

variable {ν : Type} {opts : OrchestratorOptions ν} {s s' : Orchestrator ν}

/-- What calls hold and have written. -/
structure Held (s : Orchestrator ν) : Prop where
  counted : ∀ c call, s.calls c = some call → c < s.callCount
  held : ∀ c call cp, s.calls c = some call → call.phase.heldMap = some cp → cp ≤ s.checkpoint
  early : ∀ c call, s.calls c = some call → call.phase.Early → c ∉ s.begun
  working : ∀ c call cp, s.calls c = some call → call.phase.workMap = some cp → c ∈ s.begun
  begun : ∀ c ∈ s.begun, c < s.callCount
  written : ∀ w ∈ s.writes, w.cp ≤ s.checkpoint ∧ w.call ∈ s.begun ∧ ∃ kind phase,
    s.calls w.call = some ⟨kind, w.name, phase⟩ ∧ phase.Ends w.entry.result
  present : ∀ w ∈ s.writes, ((s.maps w.cp).get w.name).isSome = true

theorem held_fresh (budget : WorkflowBudget) (store : Option Checkpoint)
    (ledger : List Charge) : Held (fresh budget store ledger : Orchestrator ν) where
  counted _ _ h := absurd h (by simp [fresh])
  held _ _ _ h := absurd h (by simp [fresh])
  early _ _ h := absurd h (by simp [fresh])
  working _ _ _ h := absurd h (by simp [fresh])
  begun _ h := absurd h (by simp [fresh])
  written _ h := absurd h (by simp [fresh])
  present _ h := absurd h (by simp [fresh])

theorem Held.of_memory (h : Held s) (heq : s'.memory = s.memory) : Held s' := by
  simp only [memory, Memory.mk.injEq] at heq
  obtain ⟨hmaps, hcheckpoint, -, hcalls, hcount, hbegun, hwrites⟩ := heq
  refine ⟨?_, ?_, ?_, ?_, ?_, ?_, ?_⟩
  · rw [hcalls, hcount]
    exact h.counted
  · rw [hcalls, hcheckpoint]
    exact h.held
  · rw [hcalls, hbegun]
    exact h.early
  · rw [hcalls, hbegun]
    exact h.working
  · rw [hbegun, hcount]
    exact h.begun
  · rw [hwrites, hcheckpoint, hbegun, hcalls]
    exact h.written
  · rw [hwrites, hmaps]
    exact h.present

/-! ### How a phase changes -/

theorem Moves.heldMap {e : OrchestratorEvent ν} {c : ℕ} {kind : CallKind} {name : JsString}
    {phase phase' : CallPhase ν} (h : Moves opts s c kind name e phase phase') {cp : ℕ}
    (hcp : phase'.heldMap = some cp) : phase.heldMap = some cp ∨ cp = s.checkpoint := by
  cases h with
  | loaded => exact .inr (Option.some.inj hcp).symm
  | checked => exact .inl hcp
  | waits => exact .inl hcp
  | produced => exact .inl hcp
  | _ => exact absurd hcp (by simp [CallPhase.heldMap])

theorem Moves.workMap {e : OrchestratorEvent ν} {c : ℕ} {kind : CallKind} {name : JsString}
    {phase phase' : CallPhase ν} (h : Moves opts s c kind name e phase phase') {cp : ℕ}
    (hcp : phase'.workMap = some cp) : phase.workMap = some cp := by
  cases h with
  | waits => exact hcp
  | produced => exact hcp
  | _ => exact absurd hcp (by simp [CallPhase.workMap])

theorem Moves.early {e : OrchestratorEvent ν} {c : ℕ} {kind : CallKind} {name : JsString}
    {phase phase' : CallPhase ν} (h : Moves opts s c kind name e phase phase')
    (hearly : phase'.Early) : phase.Early := by
  cases h with
  | loaded => trivial
  | checked => trivial
  | _ => exact absurd hearly id

theorem Moves.ends {e : OrchestratorEvent ν} {c : ℕ} {kind : CallKind} {name : JsString}
    {phase phase' : CallPhase ν} (h : Moves opts s c kind name e phase phase')
    {result : Option JsString} (hends : phase.Ends result) : phase'.Ends result := by
  cases h with
  | saved => exact hends
  | notSaved => exact rfl
  | resolved => exact hends
  | _ => exact absurd hends id

/-! ### Steps -/

theorem Held.setPhase (h : Held s) {c : ℕ} {kind : CallKind} {name : JsString}
    {phase phase' : CallPhase ν} (hc : s.calls c = some ⟨kind, name, phase⟩)
    (hheld : ∀ cp, phase'.heldMap = some cp → cp ≤ s.checkpoint)
    (hearly : phase'.Early → phase.Early)
    (hwork : ∀ cp, phase'.workMap = some cp → phase.workMap = some cp)
    (hends : ∀ result, phase.Ends result → phase'.Ends result) : Held (s.setPhase c phase') := by
  have hcall : ∀ x call, (s.setPhase c phase').calls x = some call →
      (x = c ∧ call = ⟨kind, name, phase'⟩) ∨ s.calls x = some call := by
    intro x call hx
    by_cases hxc : x = c
    · subst hxc
      exact .inl ⟨rfl, (Option.some.inj ((setPhase_self hc phase').symm.trans hx)).symm⟩
    · exact .inr ((setPhase_ne hxc phase').symm.trans hx)
  refine ⟨fun x call hx => ?_, fun x call cp hx hcp => ?_, fun x call hx hxe => ?_,
    fun x call cp hx hcp => ?_, h.begun, fun w hw => ?_, h.present⟩
  · rcases hcall x call hx with ⟨rfl, rfl⟩ | hold
    · exact h.counted x _ hc
    · exact h.counted x call hold
  · rcases hcall x call hx with ⟨rfl, rfl⟩ | hold
    · exact hheld cp hcp
    · exact h.held x call cp hold hcp
  · rcases hcall x call hx with ⟨rfl, rfl⟩ | hold
    · exact h.early x _ hc (hearly hxe)
    · exact h.early x call hold hxe
  · rcases hcall x call hx with ⟨rfl, rfl⟩ | hold
    · exact h.working x _ cp hc (hwork cp hcp)
    · exact h.working x call cp hold hcp
  · obtain ⟨hcp, hbegun, kind', phase'', hcalls, hphase⟩ := h.written w hw
    refine ⟨hcp, hbegun, ?_⟩
    by_cases hwc : w.call = c
    · rw [hwc] at hcalls ⊢
      obtain ⟨rfl, rfl, rfl⟩ : kind = kind' ∧ name = w.name ∧ phase = phase'' := by
        simpa using hc.symm.trans hcalls
      exact ⟨kind, phase', setPhase_self hc phase', hends _ hphase⟩
    · exact ⟨kind', phase'', (setPhase_ne hwc phase').trans hcalls, hphase⟩

theorem Held.called (h : Held s) (kind : CallKind) (name : JsString) {phase : CallPhase ν}
    (hphase : phase = .rejected reservedError ∨ ∃ generation ref,
      phase = .loading generation ref) : Held (s.newCall ⟨kind, name, phase⟩) := by
  have hcall : ∀ x call, (s.newCall ⟨kind, name, phase⟩).calls x = some call →
      (x = s.callCount ∧ call = ⟨kind, name, phase⟩) ∨ s.calls x = some call := by
    intro x call hx
    have hx' : (if x = s.callCount then some ⟨kind, name, phase⟩ else s.calls x) = some call := hx
    by_cases hxc : x = s.callCount
    · rw [if_pos hxc] at hx'
      exact .inl ⟨hxc, (Option.some.inj hx').symm⟩
    · rw [if_neg hxc] at hx'
      exact .inr hx'
  have hnone : phase.heldMap = none ∧ phase.workMap = none := by
    rcases hphase with rfl | ⟨generation, ref, rfl⟩ <;> exact ⟨rfl, rfl⟩
  refine ⟨fun x call hx => ?_, fun x call cp hx hcp => ?_, fun x call hx hxe => ?_,
    fun x call cp hx hcp => ?_, fun x hx => Nat.lt_succ_of_lt (h.begun x hx), fun w hw => ?_,
    h.present⟩
  · rcases hcall x call hx with ⟨rfl, -⟩ | hold
    · exact Nat.lt_succ_self _
    · exact Nat.lt_succ_of_lt (h.counted x call hold)
  · rcases hcall x call hx with ⟨-, rfl⟩ | hold
    · exact absurd (hnone.1.symm.trans hcp) (by simp)
    · exact h.held x call cp hold hcp
  · rcases hcall x call hx with ⟨rfl, -⟩ | hold
    · exact fun hmem => absurd (h.begun _ hmem) (lt_irrefl _)
    · exact h.early x call hold hxe
  · rcases hcall x call hx with ⟨-, rfl⟩ | hold
    · exact absurd (hnone.2.symm.trans hcp) (by simp)
    · exact h.working x call cp hold hcp
  · obtain ⟨hcp, hbegun, kind', phase', hcalls, hends⟩ := h.written w hw
    have hne : w.call ≠ s.callCount := Nat.ne_of_lt (h.counted _ _ hcalls)
    exact ⟨hcp, hbegun, kind', phase', (if_neg hne).trans hcalls, hends⟩

theorem Held.begins (h : Held s) {c : ℕ} {kind : CallKind} {name : JsString} {cp : ℕ}
    (hc : s.calls c = some ⟨kind, name, .started cp⟩) :
    Held { s.setPhase c (if kind = CallKind.memoize then .producing cp else .dispatching cp) with
      begun := s.begun ++ [c] } := by
  have hwork : ∀ cp', (if kind = CallKind.memoize then .producing cp
      else .dispatching cp : CallPhase ν).heldMap = some cp' → cp = cp' := by
    intro cp' hcp
    split at hcp <;> exact Option.some.inj hcp
  have hlate : ¬ (if kind = CallKind.memoize then .producing cp
      else .dispatching cp : CallPhase ν).Early := by
    split <;> exact id
  have hcall : ∀ x call, (s.setPhase c (if kind = CallKind.memoize then .producing cp
      else .dispatching cp)).calls x = some call →
      (x = c ∧ call = ⟨kind, name, if kind = CallKind.memoize then .producing cp
        else .dispatching cp⟩) ∨ (x ≠ c ∧ s.calls x = some call) := by
    intro x call hx
    by_cases hxc : x = c
    · subst hxc
      exact .inl ⟨rfl, (Option.some.inj ((setPhase_self hc _).symm.trans hx)).symm⟩
    · exact .inr ⟨hxc, (setPhase_ne hxc _).symm.trans hx⟩
  refine ⟨fun x call hx => ?_, fun x call cp' hx hcp => ?_, fun x call hx hxe hmem => ?_,
    fun x call cp' hx hcp => ?_, fun x hx => ?_, fun w hw => ?_, h.present⟩
  · rcases hcall x call hx with ⟨rfl, -⟩ | ⟨-, hold⟩
    · exact h.counted x _ hc
    · exact h.counted x call hold
  · rcases hcall x call hx with ⟨rfl, rfl⟩ | ⟨-, hold⟩
    · rw [← hwork cp' hcp]
      exact h.held x _ cp hc rfl
    · exact h.held x call cp' hold hcp
  · rcases hcall x call hx with ⟨-, rfl⟩ | ⟨hxc, hold⟩
    · exact hlate hxe
    · rcases List.mem_append.mp hmem with hmem | hmem
      · exact h.early x call hold hxe hmem
      · exact hxc (List.mem_singleton.mp hmem)
  · rcases hcall x call hx with ⟨rfl, -⟩ | ⟨-, hold⟩
    · exact List.mem_append_right _ (List.mem_singleton_self _)
    · exact List.mem_append_left _ (h.working x call cp' hold hcp)
  · rcases List.mem_append.mp hx with hx | hx
    · exact h.begun x hx
    · rw [List.mem_singleton.mp hx]
      exact h.counted c _ hc
  · obtain ⟨hcp, hbegun, kind', phase', hcalls, hends⟩ := h.written w hw
    have hwc : w.call ≠ c := by
      rintro rfl
      exact h.early _ _ hc trivial hbegun
    exact ⟨hcp, List.mem_append_left _ hbegun, kind', phase', (setPhase_ne hwc _).trans hcalls,
      hends⟩

theorem Held.stored (h : Held s) {c : ℕ} {kind : CallKind} {name : JsString}
    {phase : CallPhase ν} {cp : ℕ} (entry : StepCheckpoint)
    (hc : s.calls c = some ⟨kind, name, phase⟩) (hwork : phase.workMap = some cp) :
    Held (s.stored c name cp entry) := by
  have hset : Held (s.setPhase c (.saving entry.result)) := h.setPhase hc
    (by simp [CallPhase.heldMap])
    (fun h => absurd h id) (by simp [CallPhase.workMap])
    (fun result hends => absurd hends (CallPhase.not_ends_of_workMap hwork result))
  refine ⟨hset.counted, hset.held, hset.early, hset.working, hset.begun, fun w hw => ?_,
    fun w hw => ?_⟩
  · rcases List.mem_append.mp hw with hold | hnew
    · exact hset.written w hold
    · obtain rfl := List.mem_singleton.mp hnew
      refine ⟨h.held c _ cp hc (CallPhase.heldMap_of_workMap hwork), h.working c _ cp hc hwork,
        kind, .saving entry.result, setPhase_self hc _, rfl⟩
  · show ((if w.cp = cp then (s.maps w.cp).set name entry else s.maps w.cp).get w.name).isSome
      = true
    rcases List.mem_append.mp hw with hold | hnew
    · split
      · by_cases hname : w.name = name
        · rw [hname, OrderedMap.get_set_self]
          rfl
        · rw [OrderedMap.get_set_ne _ _ hname]
          exact h.present w hold
      · exact h.present w hold
    · obtain rfl := List.mem_singleton.mp hnew
      rw [if_pos rfl, OrderedMap.get_set_self]
      rfl

/-- The instance is given a new map. -/
theorem Held.remapped (h : Held s) {map : Checkpoint} (hcalls : s'.calls = s.calls)
    (hcount : s'.callCount = s.callCount) (hbegun : s'.begun = s.begun)
    (hwrites : s'.writes = s.writes) (hcheckpoint : s'.checkpoint = s.checkpoint + 1)
    (hmaps : s'.maps = fun x => if x = s.checkpoint + 1 then map else s.maps x) : Held s' := by
  refine ⟨?_, fun c call cp hc hcp => ?_, ?_, ?_, ?_, fun w hw => ?_, fun w hw => ?_⟩
  · rw [hcalls, hcount]
    exact h.counted
  · rw [hcheckpoint]
    exact (h.held c call cp (hcalls ▸ hc) hcp).trans (Nat.le_succ _)
  · rw [hcalls, hbegun]
    exact h.early
  · rw [hcalls, hbegun]
    exact h.working
  · rw [hbegun, hcount]
    exact h.begun
  · rw [hcheckpoint, hbegun, hcalls]
    obtain ⟨hcp, hrest⟩ := h.written w (hwrites ▸ hw)
    exact ⟨hcp.trans (Nat.le_succ _), hrest⟩
  · have hne : w.cp ≠ s.checkpoint + 1 :=
      Nat.ne_of_lt (Nat.lt_succ_of_le (h.written w (hwrites ▸ hw)).1)
    have hmap : s'.maps w.cp = s.maps w.cp := (congrFun hmaps w.cp).trans (if_neg hne)
    rw [hmap]
    exact h.present w (hwrites ▸ hw)

theorem Held.signalled (h : Held s) : Held s.signalStop := by
  have hcall : ∀ x call, s.signalStop.calls x = some call →
      ∃ old, s.calls x = some old ∧ call.name = old.name ∧ (call = old ∨
        call.phase = .rejected .stopped ∧ ∃ cp, old.phase = .producing cp) := by
    intro x call hx
    obtain ⟨old, hold, rfl⟩ := Option.map_eq_some_iff.mp hx
    refine ⟨old, hold, ?_⟩
    split
    · rename_i cp hphase
      exact ⟨rfl, .inr ⟨rfl, cp, hphase⟩⟩
    · exact ⟨rfl, .inl rfl⟩
  refine ⟨fun x call hx => ?_, fun x call cp hx hcp => ?_, fun x call hx hxe => ?_,
    fun x call cp hx hcp => ?_, h.begun, fun w hw => ?_, h.present⟩
  · obtain ⟨old, hold, -⟩ := hcall x call hx
    exact h.counted x old hold
  · obtain ⟨old, hold, -, rfl | ⟨hphase, -⟩⟩ := hcall x call hx
    · exact h.held x call cp hold hcp
    · exact absurd hcp (by simp [hphase, CallPhase.heldMap])
  · obtain ⟨old, hold, -, rfl | ⟨hphase, -⟩⟩ := hcall x call hx
    · exact h.early x call hold hxe
    · exact absurd hxe (by simp [hphase, CallPhase.Early])
  · obtain ⟨old, hold, -, rfl | ⟨hphase, -⟩⟩ := hcall x call hx
    · exact h.working x call cp hold hcp
    · exact absurd hcp (by simp [hphase, CallPhase.workMap])
  · obtain ⟨hcp, hbegun, kind, phase, hcalls, hends⟩ := h.written w hw
    refine ⟨hcp, hbegun, kind, phase, ?_, hends⟩
    show (s.calls w.call).map _ = _
    rw [hcalls]
    cases phase with
    | producing cp => exact absurd hends id
    | _ => rfl

variable [Arithmetic]

/-- **Every step keeps what the calls hold and have written.** -/
theorem held_step {e : OrchestratorEvent ν} (h : Held s) (hstep : s.step opts e = some s') :
    Held s' := by
  cases calls_step hstep with
  | quiet _ heq => exact h.of_memory heq
  | called kind name phase hphase heq =>
      refine (h.called kind name ?_).of_memory heq
      rcases hphase with rfl | ⟨rfl, -⟩
      · exact .inl rfl
      · exact .inr ⟨_, _, rfl⟩
  | moved _ c kind name phase phase' hc hmoves heq =>
      refine (h.setPhase hc (fun cp hcp => ?_) hmoves.early (fun cp => hmoves.workMap)
        fun result => hmoves.ends).of_memory heq
      rcases hmoves.heldMap hcp with hold | rfl
      · exact h.held c _ cp hc hold
      · exact le_rfl
  | began c kind name cp hc hget hname heq => exact (h.begins hc).of_memory heq
  | stored _ c kind name phase cp entry hc hwrites heq =>
      exact (h.stored entry hc hwrites.workMap).of_memory heq
  | remapped l record ledger hp hgen heq =>
      have hnew : Held (s.withSteps record) := h.remapped rfl rfl rfl rfl rfl rfl
      exact hnew.of_memory heq
  | wiped heq =>
      have hnew : Held s.reset := h.remapped rfl rfl rfl rfl rfl rfl
      exact hnew.of_memory heq
  | signalled heq => exact h.signalled.of_memory heq
  | crashed budget heq =>
      rw [heq]
      exact held_fresh _ _ _

/-! ### What a step does to the maps that calls hold -/

/-- A step leaves the maps there were, but for the step a call writes. -/
inductive MapsStep (opts : OrchestratorOptions ν) (s s' : Orchestrator ν)
    (e : OrchestratorEvent ν) : Prop
  | kept (hmaps : ∀ cp ≤ s.checkpoint, s'.maps cp = s.maps cp) (hwritten : s'.writes = s.writes)
  | wrote (c : ℕ) (kind : CallKind) (name : JsString) (phase : CallPhase ν) (cp : ℕ)
      (entry : StepCheckpoint) (hc : s.calls c = some ⟨kind, name, phase⟩)
      (hwrites : Writes opts s c name e phase cp entry)
      (hmap : s'.maps cp = (s.maps cp).set name entry)
      (hmaps : ∀ x, x ≠ cp → s'.maps x = s.maps x)
      (hwritten : s'.writes = s.writes ++ [⟨cp, c, name, entry⟩])
      (h' : s'.calls c = some ⟨kind, name, .saving entry.result⟩)
  | crashed (budget : WorkflowBudget) (h : s' = fresh budget s.store s.storeLedger)

theorem maps_step {e : OrchestratorEvent ν} (hstep : s.step opts e = some s') :
    MapsStep opts s s' e := by
  have hsame : ∀ t : Orchestrator ν, s'.memory = t.memory → t.maps = s.maps →
      t.writes = s.writes → MapsStep opts s s' e := by
    intro t heq hmaps hwrites
    have hm : s'.maps = t.maps := congrArg Memory.maps heq
    have hw : s'.writes = t.writes := congrArg Memory.writes heq
    exact .kept (fun cp _ => congrFun (hm.trans hmaps) cp) (hw.trans hwrites)
  have hnew : ∀ map : Checkpoint,
      s'.maps = (fun x => if x = s.checkpoint + 1 then map else s.maps x) →
      s'.writes = s.writes → MapsStep opts s s' e := by
    intro map hmaps hwrites
    refine .kept (fun cp hcp => ?_) hwrites
    exact (congrFun hmaps cp).trans (if_neg (Nat.ne_of_lt (Nat.lt_succ_of_le hcp)))
  cases calls_step hstep with
  | quiet _ heq => exact hsame s heq rfl rfl
  | called _ _ _ _ heq => exact hsame _ heq rfl rfl
  | moved _ _ _ _ _ _ _ _ heq => exact hsame _ heq rfl rfl
  | began _ _ _ _ _ _ _ heq => exact hsame _ heq rfl rfl
  | signalled heq => exact hsame _ heq rfl rfl
  | remapped l record _ _ _ heq =>
      exact hnew _ (congrArg Memory.maps heq) (congrArg Memory.writes heq)
  | wiped heq => exact hnew _ (congrArg Memory.maps heq) (congrArg Memory.writes heq)
  | stored _ c kind name phase cp entry hc hwrites heq =>
      have hmaps : s'.maps = fun x => if x = cp then (s.maps x).set name entry else s.maps x :=
        congrArg Memory.maps heq
      have hcalls : s'.calls c = (s.setPhase c (.saving entry.result)).calls c :=
        congrFun (congrArg Memory.calls heq) c
      exact .wrote c kind name phase cp entry hc hwrites ((congrFun hmaps cp).trans (if_pos rfl))
        (fun x hx => (congrFun hmaps x).trans (if_neg hx)) (congrArg Memory.writes heq)
        (hcalls.trans (setPhase_self hc _))
  | crashed budget heq => exact .crashed budget heq

/-- A call begins its work when it looks at its map. -/
theorem begun_step {e : OrchestratorEvent ν} (hstep : s.step opts e = some s') {c : ℕ}
    (hc : c ∈ s'.begun) : c ∈ s.begun ∨ ∃ kind name cp, e = .enters c ∧
      (s.maps cp).get name = none ∧ s.calls c = some ⟨kind, name, .started cp⟩ := by
  have hsame : ∀ t : Orchestrator ν, s'.memory = t.memory → t.begun = s.begun → c ∈ s.begun := by
    intro t heq ht
    have hbegun : s'.begun = t.begun := congrArg Memory.begun heq
    rwa [hbegun, ht] at hc
  cases calls_step hstep with
  | quiet _ heq => exact .inl (hsame s heq rfl)
  | called _ _ _ _ heq => exact .inl (hsame _ heq rfl)
  | moved _ _ _ _ _ _ _ _ heq => exact .inl (hsame _ heq rfl)
  | signalled heq => exact .inl (hsame _ heq rfl)
  | remapped _ _ _ _ _ heq => exact .inl (hsame (s.withSteps _) heq rfl)
  | wiped heq => exact .inl (hsame s.reset heq rfl)
  | stored _ _ _ _ _ _ _ _ _ heq => exact .inl (hsame _ heq rfl)
  | began x kind name cp hx hget hname heq =>
      have hbegun : s'.begun = s.begun ++ [x] := congrArg Memory.begun heq
      rw [hbegun] at hc
      rcases List.mem_append.mp hc with hold | hnew
      · exact .inl hold
      · obtain rfl := List.mem_singleton.mp hnew
        exact .inr ⟨kind, name, cp, rfl, hget, hx⟩
  | crashed budget heq =>
      subst heq
      exact absurd hc List.not_mem_nil

/-- The calls that wait for a save have written a step. -/
def OwnersWrote (s : Orchestrator ν) : Prop := ∀ c ∈ s.owners, ∃ w ∈ s.writes, w.call = c

theorem ownersWrote_step {e : OrchestratorEvent ν} (h : OwnersWrote s)
    (hstep : s.step opts e = some s') : OwnersWrote s' := by
  intro c hc
  rcases owners_step hstep hc with hold | hnew
  · obtain ⟨w, hw, rfl⟩ := h c hold
    cases maps_step hstep with
    | kept _ hwritten => exact ⟨w, hwritten ▸ hw, rfl⟩
    | wrote _ _ _ _ _ _ _ _ _ _ hwritten _ =>
        exact ⟨w, hwritten ▸ List.mem_append_left _ hw, rfl⟩
    | crashed budget heq =>
        subst heq
        obtain ⟨job, hmem, -⟩ := mem_owners.mp hc
        exact absurd hmem List.not_mem_nil
  · exact hnew

end Orchestrator

end Kaiban
