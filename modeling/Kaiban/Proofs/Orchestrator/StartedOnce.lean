/-
A named step is done once between two resets.

The checkpoint of a call is looked at before its work and written after it, and nothing holds
the name in between.  So a second call of the name that looks while the first one is at work
does the work again, and both are paid for.  When no call looks then, the map of a run has
no step for a name that is worked on, and each name is written once.

`Watched` remembers in which run each call is, and what it found when it looked.
-/
import Kaiban.Proofs.Orchestrator.Held
import Kaiban.Lib.Steps

open JsString

namespace Kaiban

/-- An orchestrator, and what is remembered of its calls. -/
structure Watched (ν : Type) where
  state : Orchestrator ν
  /-- How many resets there had been when a call passed its load. -/
  run : ℕ → Option ℕ
  /-- The call of its name a call found at work. -/
  joined : ℕ → Option ℕ
  /-- The step of its name, written in its run, a call found. -/
  found : ℕ → Option Write

namespace Watched

variable {ν : Type} {opts : OrchestratorOptions ν}

def fresh (budget : WorkflowBudget) (store : Option Checkpoint) (ledger : List Charge) :
    Watched ν :=
  ⟨.fresh budget store ledger, fun _ => none, fun _ => none, fun _ => none⟩

/-- `d` is another call of this name at work in the run of `c`. -/
def worksBeside (w : Watched ν) (c : ℕ) (name : JsString) (d : ℕ) : Bool :=
  decide (d ≠ c ∧ w.run d = w.run c) &&
    (w.state.calls d).any fun call => decide (call.name = name) && call.phase.workMap.isSome

/-- The call of the name of `c` that is at work in its run. -/
def inFlight (w : Watched ν) (c : ℕ) : Option ℕ :=
  (w.state.calls c).bind fun call =>
    (List.range w.state.callCount).find? (w.worksBeside c call.name)

/-- The step of the name of `c` that was written in its run. -/
def done (w : Watched ν) (c : ℕ) : Option Write :=
  (w.state.calls c).bind fun call =>
    w.state.writes.find? fun x => w.run x.call = w.run c ∧ x.name = call.name

/-- What is remembered of a step to `s'`. -/
def watch (w : Watched ν) (s' : Orchestrator ν) : OrchestratorEvent ν → Watched ν
  | .checked c =>
      { w with
        state := s'
        run := fun x => if x = c then some w.state.generation else w.run x }
  | .enters c =>
      { w with
        state := s'
        joined := fun x => if x = c then w.inFlight c else w.joined x
        found := fun x => if x = c then w.done c else w.found x }
  | .crash _ => ⟨s', fun _ => none, fun _ => none, fun _ => none⟩
  | _ => { w with state := s' }

variable [Arithmetic] in
def step (opts : OrchestratorOptions ν) (w : Watched ν) (e : OrchestratorEvent ν) :
    Option (Watched ν) :=
  (w.state.step opts e).map fun s' => w.watch s' e

/-- A call looks at its map when no other of its name is at work in its run, and a `memoize`
finds no step whose result is no JSON. -/
def Apart (w : Watched ν) : OrchestratorEvent ν → Prop
  | .enters c => w.inFlight c = none ∧
      ((w.state.calls c).any (fun call => decide (call.kind = .memoize)) = true →
        (w.done c).all (fun x => (x.entry.result.bind Json.parse).isSome) = true)
  | _ => True

instance (w : Watched ν) : (e : OrchestratorEvent ν) → Decidable (w.Apart e)
  | .enters _ => instDecidableAnd
  | .call .. | .recordSpend _ | .clear | .storeReads _ | .loadReturns _ | .loadThrows _
  | .loaded _ | .checked _ | .dispatched .. | .waited .. | .produced .. | .continues _
  | .jobStarts | .jobLoaded | .storeActs | .jobReturns | .jobThrows | .finishes _
  | .signalStop | .crash _ => isTrue trivial

/-- Between two resets a name is done once, and who finds it at work or done does nothing. -/
structure StartedOnce (w : Watched ν) : Prop where
  once : (w.state.writes.map fun x => (w.run x.call, x.name)).Nodup
  begun : ∀ x ∈ w.state.writes, x.call ∈ w.state.begun
  joined : ∀ c d, w.joined c = some d → c ∉ w.state.begun ∧
    ∀ kind name result, w.state.calls c = some ⟨kind, name, .resolved result⟩ →
      ∃ x ∈ w.state.writes, x.call = d ∧ x.entry.result = result
  found : ∀ c x, w.found c = some x → c ∉ w.state.begun ∧
    ∃ kind name, w.state.calls c = some ⟨kind, name, .resolved x.entry.result⟩

end Watched

namespace Orchestrator

variable {ν : Type} {opts : OrchestratorOptions ν} {s s' : Orchestrator ν}

/-! ### Calls at work on a map -/

/-- The call works on this step of the map `cp`. -/
def WorksAt (s : Orchestrator ν) (c : ℕ) (name : JsString) (cp : ℕ) : Prop :=
  ∃ kind phase, s.calls c = some ⟨kind, name, phase⟩ ∧ phase.workMap = some cp

variable [Arithmetic] in
theorem worksAt_step {e : OrchestratorEvent ν} (hstep : s.step opts e = some s') {c : ℕ}
    {name : JsString} {cp : ℕ} (h : WorksAt s' c name cp) : WorksAt s c name cp ∨
      e = .enters c ∧ (s.maps cp).get name = none ∧
        ∃ kind, s.calls c = some ⟨kind, name, .started cp⟩ := by
  obtain ⟨kind, phase, hc, hwork⟩ := h
  cases call_step hstep c with
  | same h' => exact .inl ⟨kind, phase, h' ▸ hc, hwork⟩
  | called _ _ _ _ _ _ hphase h' =>
      obtain ⟨-, -, rfl⟩ := StepCall.mk.inj (Option.some.inj (hc.symm.trans h'))
      rcases hphase with rfl | ⟨rfl, -⟩ <;> exact absurd hwork (by simp [CallPhase.workMap])
  | moved kind' name' old new hold hmoves h' =>
      obtain ⟨rfl, rfl, rfl⟩ := StepCall.mk.inj (Option.some.inj (hc.symm.trans h'))
      exact .inl ⟨kind, old, hold, hmoves.workMap hwork⟩
  | began kind' name' cp' he hold hget hname hbegun h' =>
      obtain ⟨rfl, rfl, rfl⟩ := StepCall.mk.inj (Option.some.inj (hc.symm.trans h'))
      obtain rfl : cp' = cp := by
        split at hwork <;> exact Option.some.inj hwork
      exact .inr ⟨he, hget, kind, hold⟩
  | stored kind' name' old cp' entry hold hwrites hwritten h' =>
      obtain ⟨-, -, rfl⟩ := StepCall.mk.inj (Option.some.inj (hc.symm.trans h'))
      exact absurd hwork (by simp [CallPhase.workMap])
  | signalled kind' name' cp' hold h' =>
      obtain ⟨-, -, rfl⟩ := StepCall.mk.inj (Option.some.inj (hc.symm.trans h'))
      exact absurd hwork (by simp [CallPhase.workMap])
  | crashed budget heq =>
      subst heq
      exact absurd hc (by simp [fresh])

theorem Held.worksAt (h : Held s) {c : ℕ} {name : JsString} {cp : ℕ} (hw : WorksAt s c name cp) :
    cp ≤ s.checkpoint := by
  obtain ⟨kind, phase, hc, hwork⟩ := hw
  exact h.held c _ cp hc (CallPhase.heldMap_of_workMap hwork)

/-- Each step of a map is worked on by one call and written once. -/
structure Alone (s : Orchestrator ν) : Prop where
  entry : ∀ x ∈ s.writes, (s.maps x.cp).get x.name = some x.entry
  undone : ∀ c name cp, WorksAt s c name cp → (s.maps cp).get name = none
  alone : ∀ c d name cp, WorksAt s c name cp → WorksAt s d name cp → c = d
  once : (s.writes.map fun x => (x.cp, x.name)).Nodup

theorem alone_fresh (budget : WorkflowBudget) (store : Option Checkpoint)
    (ledger : List Charge) : Alone (fresh budget store ledger : Orchestrator ν) where
  entry _ h := absurd h List.not_mem_nil
  undone _ _ _ h := by
    obtain ⟨kind, phase, hc, -⟩ := h
    exact absurd hc (by simp [fresh])
  alone _ _ _ _ h := by
    obtain ⟨kind, phase, hc, -⟩ := h
    exact absurd hc (by simp [fresh])
  once := List.nodup_nil

variable [Arithmetic] in
/-- A step that lets no call look while another one works keeps them alone. -/
theorem alone_step {e : OrchestratorEvent ν} (h : Alone s) (hheld : Held s)
    (hstep : s.step opts e = some s')
    (hapart : ∀ c kind name cp, e = .enters c → s.calls c = some ⟨kind, name, .started cp⟩ →
      ∀ d, ¬ WorksAt s d name cp) : Alone s' := by
  cases maps_step hstep with
  | kept hmaps hwritten =>
      refine ⟨fun x hx => ?_, fun c name cp hc => ?_, fun c d name cp hc hd => ?_, ?_⟩
      · rw [hwritten] at hx
        rw [hmaps x.cp (hheld.written x hx).1]
        exact h.entry x hx
      · rcases worksAt_step hstep hc with hold | ⟨-, hget, kind, hstarted⟩
        · rw [hmaps cp (hheld.worksAt hold)]
          exact h.undone c name cp hold
        · rw [hmaps cp (hheld.held c _ cp hstarted rfl)]
          exact hget
      · rcases worksAt_step hstep hc with hold | ⟨he, -, kind, hstarted⟩
        · rcases worksAt_step hstep hd with hold' | ⟨he, -, kind, hstarted⟩
          · exact h.alone c d name cp hold hold'
          · exact absurd hold (hapart d kind name cp he hstarted c)
        · rcases worksAt_step hstep hd with hold' | ⟨he', -, -⟩
          · exact absurd hold' (hapart c kind name cp he hstarted d)
          · exact OrchestratorEvent.enters.inj (he.symm.trans he')
      · rw [hwritten]
        exact h.once
  | wrote c kind name phase cp entry hc hwrites hmap hmaps hwritten h' =>
      have hown : WorksAt s c name cp := ⟨kind, phase, hc, hwrites.workMap⟩
      have hnone : (s.maps cp).get name = none := h.undone c name cp hown
      -- No call begins, and the one that wrote is not at work any more.
      have hwork : ∀ x n m, WorksAt s' x n m → WorksAt s x n m ∧ x ≠ c := by
        intro x n m hx
        refine ⟨(worksAt_step hstep hx).resolve_right fun hnew => ?_, ?_⟩
        · obtain ⟨rfl, -⟩ := hnew
          cases hwrites
        · rintro rfl
          obtain ⟨kind', phase', hx', hm⟩ := hx
          obtain ⟨-, -, rfl⟩ := StepCall.mk.inj (Option.some.inj (h'.symm.trans hx'))
          exact absurd hm (by simp [CallPhase.workMap])
      have hother : ∀ x ∈ s.writes, ¬ (x.cp = cp ∧ x.name = name) := by
        rintro x hx ⟨rfl, rfl⟩
        exact absurd ((h.entry x hx).symm.trans hnone) (by simp)
      have hget : ∀ m n, ¬ (m = cp ∧ n = name) → (s'.maps m).get n = (s.maps m).get n := by
        intro m n hne
        by_cases hm : m = cp
        · subst hm
          rw [hmap, OrderedMap.get_set_ne _ _ fun hn => hne ⟨rfl, hn⟩]
        · rw [hmaps m hm]
      refine ⟨fun x hx => ?_, fun x n m hx => ?_, fun x y n m hx hy => ?_, ?_⟩
      · rw [hwritten] at hx
        rcases List.mem_append.mp hx with hold | hnew
        · rw [hget x.cp x.name (hother x hold)]
          exact h.entry x hold
        · obtain rfl := List.mem_singleton.mp hnew
          rw [hmap, OrderedMap.get_set_self]
      · obtain ⟨hold, hne⟩ := hwork x n m hx
        rw [hget m n]
        · exact h.undone x n m hold
        · rintro ⟨rfl, rfl⟩
          exact hne (h.alone x c n m hold hown)
      · exact h.alone x y n m (hwork x n m hx).1 (hwork y n m hy).1
      · rw [hwritten, List.map_append, List.map_singleton]
        refine h.once.append (List.nodup_singleton _) ?_
        intro key hkey hnew
        obtain ⟨x, hx, rfl⟩ := List.mem_map.mp hkey
        obtain ⟨hcp, hname⟩ := Prod.mk.inj (List.mem_singleton.mp hnew)
        exact hother x hx ⟨hcp, hname⟩
  | crashed budget heq =>
      rw [heq]
      exact alone_fresh _ _ _

/-! ### The map of a run -/

/-- The call is past its load, or has written its step, with the map `cp`. -/
def Has (s : Orchestrator ν) (c cp : ℕ) : Prop :=
  (∃ kind name phase, s.calls c = some ⟨kind, name, phase⟩ ∧
    (phase = .started cp ∨ phase.workMap = some cp)) ∨ ∃ x ∈ s.writes, x.call = c ∧ x.cp = cp

theorem WorksAt.has {c : ℕ} {name : JsString} {cp : ℕ} (h : WorksAt s c name cp) : Has s c cp := by
  obtain ⟨kind, phase, hc, hwork⟩ := h
  exact .inl ⟨kind, name, phase, hc, .inr hwork⟩

/-- A call that has just been given its map has not passed its load before. -/
theorem Has.not_loaded {c cp : ℕ} (h : Has s c cp) (hheld : Held s) {kind : CallKind}
    {name : JsString}
    {generation cp' : ℕ} : s.calls c ≠ some ⟨kind, name, .loaded generation cp'⟩ := by
  intro hc
  rcases h with ⟨kind', name', phase, hc', hphase⟩ | ⟨x, hx, rfl, -⟩
  · obtain ⟨-, -, rfl⟩ := StepCall.mk.inj (Option.some.inj (hc.symm.trans hc'))
    rcases hphase with hphase | hphase <;> exact absurd hphase (by simp [CallPhase.workMap])
  · exact hheld.early _ _ hc trivial (hheld.written x hx).2.1

theorem Moves.has {e : OrchestratorEvent ν} {c : ℕ} {kind : CallKind} {name : JsString}
    {phase phase' : CallPhase ν} (h : Moves opts s c kind name e phase phase') {cp : ℕ}
    (hcp : phase' = .started cp ∨ phase'.workMap = some cp) : phase.workMap = some cp ∨
      e = .checked c ∧ phase = .loaded s.generation cp := by
  rcases hcp with rfl | hwork
  · cases h with
    | checked generation _ hgen => exact .inr ⟨rfl, by rw [hgen]⟩
  · exact .inl (h.workMap hwork)

variable [Arithmetic] in
theorem has_step {e : OrchestratorEvent ν} (hstep : s.step opts e = some s') {c cp : ℕ}
    (h : Has s' c cp) : Has s c cp ∨
      e = .checked c ∧ ∃ kind name, s.calls c = some ⟨kind, name, .loaded s.generation cp⟩ := by
  rcases h with ⟨kind, name, phase, hc, hphase⟩ | ⟨x, hx, rfl, rfl⟩
  · cases call_step hstep c with
    | same h' => exact .inl (.inl ⟨kind, name, phase, h' ▸ hc, hphase⟩)
    | called _ _ _ _ _ _ hnew h' =>
        obtain ⟨-, -, rfl⟩ := StepCall.mk.inj (Option.some.inj (hc.symm.trans h'))
        rcases hnew with rfl | ⟨rfl, -⟩ <;> rcases hphase with hphase | hphase <;>
          exact absurd hphase (by simp [CallPhase.workMap])
    | moved kind' name' old new hold hmoves h' =>
        obtain ⟨rfl, rfl, rfl⟩ := StepCall.mk.inj (Option.some.inj (hc.symm.trans h'))
        rcases hmoves.has hphase with hwork | ⟨he, rfl⟩
        · exact .inl (.inl ⟨kind, name, old, hold, .inr hwork⟩)
        · exact .inr ⟨he, kind, name, hold⟩
    | began kind' name' cp' he hold hget hname hbegun h' =>
        obtain ⟨rfl, rfl, rfl⟩ := StepCall.mk.inj (Option.some.inj (hc.symm.trans h'))
        refine .inl (.inl ⟨kind, name, _, hold, .inl ?_⟩)
        rcases hphase with hphase | hphase <;> split at hphase <;>
          first | exact absurd hphase (by simp) | rw [Option.some.inj hphase]
    | stored kind' name' old cp' entry hold hwrites hwritten h' =>
        obtain ⟨-, -, rfl⟩ := StepCall.mk.inj (Option.some.inj (hc.symm.trans h'))
        rcases hphase with hphase | hphase <;> exact absurd hphase (by simp [CallPhase.workMap])
    | signalled kind' name' cp' hold h' =>
        obtain ⟨-, -, rfl⟩ := StepCall.mk.inj (Option.some.inj (hc.symm.trans h'))
        rcases hphase with hphase | hphase <;> exact absurd hphase (by simp [CallPhase.workMap])
    | crashed budget heq =>
        subst heq
        exact absurd hc (by simp [fresh])
  · cases maps_step hstep with
    | kept _ hwritten => exact .inl (.inr ⟨x, hwritten ▸ hx, rfl, rfl⟩)
    | wrote c kind name phase cp entry hc hwrites hmap hmaps hwritten h' =>
        rw [hwritten] at hx
        rcases List.mem_append.mp hx with hold | hnew
        · exact .inl (.inr ⟨x, hold, rfl, rfl⟩)
        · obtain rfl := List.mem_singleton.mp hnew
          exact .inl (.inl ⟨kind, name, phase, hc, .inr hwrites.workMap⟩)
    | crashed budget heq =>
        subst heq
        exact absurd hx List.not_mem_nil

/-- The map `cp` is that of the run `g`: the map of the instance, if that is ready, or an
older one. -/
def Placed (s : Orchestrator ν) (g cp : ℕ) : Prop :=
  g = s.generation ∧ s.Ready ∧ cp = s.checkpoint ∨ g < s.generation ∧ cp < s.checkpoint

variable [Arithmetic] in
theorem placed_step {e : OrchestratorEvent ν} (hok : LoadsOk s) (hstep : s.step opts e = some s')
    {g cp : ℕ} (h : Placed s g cp) :
    (∃ budget, s' = fresh budget s.store s.storeLedger) ∨ Placed s' g cp := by
  cases loadStep hok hstep with
  | kept hgen hle _ _ hready =>
      refine .inr ?_
      unfold Placed
      rw [hgen]
      rcases h with ⟨rfl, hr, rfl⟩ | ⟨hlt, hcp⟩
      · obtain ⟨hr', hsame⟩ := hready hr
        exact .inl ⟨rfl, hr', hsame.symm⟩
      · exact .inr ⟨hlt, lt_of_lt_of_le hcp hle⟩
  | wiped hgen hcheckpoint hready hsettled =>
      refine .inr (.inr ?_)
      rw [hgen, hcheckpoint]
      rcases h with ⟨rfl, -, rfl⟩ | ⟨hlt, hcp⟩
      · exact ⟨Nat.lt_succ_self _, Nat.lt_succ_self _⟩
      · exact ⟨Nat.lt_succ_of_lt hlt, Nat.lt_succ_of_lt hcp⟩
  | crashed budget heq => exact .inl ⟨budget, heq⟩

/-- The current run and its map go together. -/
theorem Placed.current_iff {g cp g' cp' : ℕ} (hg : g = s.generation) (h : Placed s g cp)
    (h' : Placed s g' cp') : g = g' ↔ cp = cp' := by
  rcases h with ⟨-, -, rfl⟩ | ⟨hlt, -⟩
  · rcases h' with ⟨rfl, -, rfl⟩ | ⟨hlt, hcp⟩
    · exact ⟨fun _ => rfl, fun _ => hg⟩
    · exact ⟨fun h => absurd (hg.symm.trans h) (Nat.ne_of_gt hlt),
        fun h => absurd h (Nat.ne_of_gt hcp)⟩
  · exact absurd hg (Nat.ne_of_lt hlt)

/-! ### A call that finds its step -/

variable [Arithmetic] in
theorem enters_found {c : ℕ} {kind : CallKind} {name : JsString} {cp : ℕ}
    {entry : StepCheckpoint} (hstep : s.step opts (.enters c) = some s')
    (hc : s.calls c = some ⟨kind, name, .started cp⟩) (hget : (s.maps cp).get name = some entry)
    (hparse : kind = .memoize → (entry.result.bind Json.parse).isSome = true) :
    s'.calls c = some ⟨kind, name, .resolved entry.result⟩ := by
  cases transition hstep with
  | entered _ kind' name' cp' hc' =>
      obtain ⟨rfl, rfl, hphase⟩ := StepCall.mk.inj (Option.some.inj (hc.symm.trans hc'))
      obtain rfl := CallPhase.started.inj hphase
      rcases enter_cases opts s c kind name cp with ⟨e, he, hs⟩ | ⟨hnone, -, -⟩ |
        ⟨-, hnone, -, -, -⟩ | ⟨hnone, -, -, -, -⟩
      · obtain rfl : entry = e := Option.some.inj (hget.symm.trans he)
        rw [hs]
        rcases replay_cases (ν := ν) kind entry.result with ⟨-, hr⟩ | ⟨hkind, hbad, -⟩
        · rw [hr]
          exact setPhase_self hc _
        · exact absurd (hparse hkind) (by simp [hbad])
      · exact absurd (hget.symm.trans hnone) (by simp)
      · exact absurd (hget.symm.trans hnone) (by simp)
      · exact absurd (hget.symm.trans hnone) (by simp)

variable [Arithmetic] in
/-- A call that has resolved without work stays so. -/
theorem resolved_step {e : OrchestratorEvent ν} (hheld : Held s) (howners : OwnersWrote s)
    (hstep : s.step opts e = some s') (hlives : ∀ budget, e ≠ .crash budget) {c : ℕ}
    {kind : CallKind} {name : JsString} {result : Option JsString}
    (hc : s.calls c = some ⟨kind, name, .resolved result⟩) (hbegun : c ∉ s.begun) :
    c ∉ s'.begun ∧ s'.calls c = some ⟨kind, name, .resolved result⟩ := by
  have hnot : c ∉ s'.begun := by
    intro hmem
    rcases begun_step hstep hmem with hold | ⟨kind', name', cp, -, -, hc'⟩
    · exact hbegun hold
    · exact absurd (hc.symm.trans hc') (by simp)
  cases call_step hstep c with
  | same h' => exact ⟨hnot, h'.trans hc⟩
  | called _ _ _ hcount _ _ _ _ =>
      exact absurd (hheld.counted c _ hc) (by rw [hcount]; exact lt_irrefl _)
  | moved kind' name' old new hold hmoves h' =>
      obtain ⟨rfl, rfl, rfl⟩ := StepCall.mk.inj (Option.some.inj (hc.symm.trans hold))
      cases hmoves with
      | notSaved _ _ _ howner =>
          obtain ⟨x, hx, rfl⟩ := howners c howner
          exact absurd (hheld.written x hx).2.1 hbegun
  | began kind' name' cp he hold hget hname hbegun' h' =>
      exact absurd (hc.symm.trans hold) (by simp)
  | stored kind' name' old cp entry hold hwrites hwritten h' =>
      obtain ⟨-, -, rfl⟩ := StepCall.mk.inj (Option.some.inj (hc.symm.trans hold))
      exact absurd hwrites.workMap (by simp [CallPhase.workMap])
  | signalled kind' name' cp hold h' => exact absurd (hc.symm.trans hold) (by simp)
  | crashed budget heq he => exact absurd he (hlives budget)

end Orchestrator

namespace Watched

section

variable {ν : Type} {opts : OrchestratorOptions ν}
  {w w' : Watched ν} {s' : Orchestrator ν}

@[simp] theorem watch_state (w : Watched ν) (s' : Orchestrator ν) (e : OrchestratorEvent ν) :
    (w.watch s' e).state = s' := by
  cases e <;> rfl

/-! ### Runs and maps -/

/-- The calls of one run have one map, and no other run has it. -/
structure Sorted (w : Watched ν) : Prop where
  placed : ∀ c cp, w.state.Has c cp → ∃ g, w.run c = some g ∧ w.state.Placed g cp
  same : ∀ c d cp cp', w.state.Has c cp → w.state.Has d cp' → (w.run c = w.run d ↔ cp = cp')

theorem not_has_fresh {budget : WorkflowBudget} {store : Option Checkpoint} {ledger : List Charge}
    {c cp : ℕ} : ¬ (Orchestrator.fresh budget store ledger : Orchestrator ν).Has c cp := by
  rintro (⟨kind, name, phase, hc, -⟩ | ⟨x, hx, -⟩)
  · exact absurd hc (by simp [Orchestrator.fresh])
  · exact absurd hx List.not_mem_nil

theorem sorted_fresh (budget : WorkflowBudget) (store : Option Checkpoint)
    (ledger : List Charge) : Sorted (fresh budget store ledger : Watched ν) where
  placed _ _ h := absurd h not_has_fresh
  same _ _ _ _ h := absurd h not_has_fresh

variable [Arithmetic] in
/-- The run of a call that has its map does not change. -/
theorem watch_run {e : OrchestratorEvent ν} (hheld : w.state.Held)
    (hstep : w.state.step opts e = some s') {c cp : ℕ} (hold : w.state.Has c cp)
    (hnew : s'.Has c cp) : (w.watch s' e).run c = w.run c := by
  cases e with
  | checked x =>
      by_cases hx : c = x
      · subst hx
        cases Orchestrator.transition hstep with
        | callChecked _ kind name generation cp' hc => exact absurd hc (hold.not_loaded hheld)
      · exact if_neg hx
  | crash budget =>
      cases Orchestrator.transition hstep with
      | crashed => exact absurd hnew not_has_fresh
  | _ => rfl

variable [Arithmetic] in
theorem sorted_step {e : OrchestratorEvent ν} (h : Sorted w) (hheld : w.state.Held)
    (hload : w.state.Loading) (hstep : w.state.step opts e = some s') : Sorted (w.watch s' e) := by
  -- A call has had its map before, or has just been given that of the current run.
  have hback : ∀ c cp, s'.Has c cp → ∃ g, (w.watch s' e).run c = some g ∧
      w.state.Placed g cp ∧ (w.state.Has c cp ∧ w.run c = some g ∨ g = w.state.generation) := by
    intro c cp hc
    rcases Orchestrator.has_step hstep hc with hold | ⟨rfl, kind, name, hloaded⟩
    · obtain ⟨g, hg, hplaced⟩ := h.placed c cp hold
      exact ⟨g, (watch_run hheld hstep hold hc).trans hg, hplaced, .inl ⟨hold, hg⟩⟩
    · obtain ⟨hready, hcp⟩ := (hload.given c kind name _ cp hloaded).2 rfl
      exact ⟨w.state.generation, if_pos rfl, .inl ⟨rfl, hready, hcp⟩, .inr rfl⟩
  refine ⟨fun c cp hc => ?_, fun c d cp cp' hc hd => ?_⟩
  · rw [watch_state] at hc ⊢
    obtain ⟨g, hg, hplaced, -⟩ := hback c cp hc
    refine ⟨g, hg, (Orchestrator.placed_step hload.ok hstep hplaced).resolve_left ?_⟩
    rintro ⟨budget, rfl⟩
    exact not_has_fresh hc
  · rw [watch_state] at hc hd
    obtain ⟨g, hg, hplaced, hcold⟩ := hback c cp hc
    obtain ⟨g', hg', hplaced', hdold⟩ := hback d cp' hd
    rw [hg, hg', Option.some.injEq]
    rcases hcold with ⟨hcold, hrun⟩ | hcur
    · rcases hdold with ⟨hdold, hrun'⟩ | hcur
      · have hsame := h.same c d cp cp' hcold hdold
        rwa [hrun, hrun', Option.some.injEq] at hsame
      · exact eq_comm.trans ((hplaced'.current_iff hcur hplaced).trans eq_comm)
    · exact hplaced.current_iff hcur hplaced'

/-! ### What calls found -/

/-- Nothing at work was found, and who found a step has its result. -/
structure Found (w : Watched ν) : Prop where
  joined : ∀ c, w.joined c = none
  found : ∀ c x, w.found c = some x → c ∉ w.state.begun ∧
    ∃ kind name, w.state.calls c = some ⟨kind, name, .resolved x.entry.result⟩

theorem found_fresh (budget : WorkflowBudget) (store : Option Checkpoint)
    (ledger : List Charge) : Found (fresh budget store ledger : Watched ν) where
  joined _ := rfl
  found _ _ h := absurd h (by simp [fresh])

/-- A step that is found is in the map of the call. -/
theorem done_get (h : Sorted w) (halone : w.state.Alone) {c : ℕ}
    {kind : CallKind} {name : JsString} {cp : ℕ}
    (hc : w.state.calls c = some ⟨kind, name, .started cp⟩) {x : Write}
    (hx : w.done c = some x) : (w.state.maps cp).get name = some x.entry := by
  unfold done at hx
  rw [hc, Option.bind_some] at hx
  have hmem := List.mem_of_find?_eq_some hx
  obtain ⟨hrun, hname⟩ : w.run x.call = w.run c ∧ x.name = name := by
    simpa using List.find?_some hx
  have hcp : x.cp = cp := (h.same x.call c x.cp cp (.inr ⟨x, hmem, rfl, rfl⟩)
    (.inl ⟨kind, name, _, hc, .inl rfl⟩)).mp hrun
  rw [← hcp, ← hname]
  exact halone.entry x hmem

/-- No call of the name works on the map of a call that finds none. -/
theorem not_worksAt (h : Sorted w) (hheld : w.state.Held) {c : ℕ} {kind : CallKind}
    {name : JsString} {cp : ℕ} (hc : w.state.calls c = some ⟨kind, name, .started cp⟩)
    (hnone : w.inFlight c = none) (d : ℕ) : ¬ w.state.WorksAt d name cp := by
  intro hd
  unfold inFlight at hnone
  rw [hc, Option.bind_some, List.find?_eq_none] at hnone
  have hrun : w.run d = w.run c :=
    (h.same d c cp cp hd.has (.inl ⟨kind, name, _, hc, .inl rfl⟩)).mpr rfl
  obtain ⟨kind', phase, hcall, hwork⟩ := hd
  have hne : d ≠ c := by
    rintro rfl
    obtain ⟨-, -, rfl⟩ := StepCall.mk.inj (Option.some.inj (hc.symm.trans hcall))
    exact absurd hwork (by simp [CallPhase.workMap])
  refine hnone d (List.mem_range.mpr (hheld.counted d _ hcall)) ?_
  unfold worksBeside
  simp [hne, hrun, hcall, hwork]

variable [Arithmetic] in
theorem found_step {e : OrchestratorEvent ν} (h : Found w) (hsorted : Sorted w)
    (hheld : w.state.Held) (howners : w.state.OwnersWrote) (halone : w.state.Alone)
    (hapart : w.Apart e) (hstep : w.state.step opts e = some s') : Found (w.watch s' e) := by
  have hkept : (∀ budget, e ≠ .crash budget) → ∀ c x, w.found c = some x → c ∉ s'.begun ∧
      ∃ kind name, s'.calls c = some ⟨kind, name, .resolved x.entry.result⟩ := by
    intro hlives c x hx
    obtain ⟨hbegun, kind, name, hc⟩ := h.found c x hx
    obtain ⟨hb, hc'⟩ := Orchestrator.resolved_step hheld howners hstep hlives hc hbegun
    exact ⟨hb, kind, name, hc'⟩
  have hsame : (∀ budget, e ≠ .crash budget) → (w.watch s' e).joined = w.joined →
      (w.watch s' e).found = w.found → Found (w.watch s' e) := by
    intro hlives hj hf
    refine ⟨fun c => ?_, fun c x hx => ?_⟩
    · rw [hj]
      exact h.joined c
    · rw [watch_state]
      exact hkept hlives c x (hf ▸ hx)
  cases e with
  | crash budget => exact ⟨fun _ => rfl, fun c x hx => absurd hx (by simp [watch])⟩
  | enters c =>
      cases Orchestrator.transition hstep with
      | entered _ kind name cp hc =>
          refine ⟨fun y => ?_, fun y x hx => ?_⟩
          · show (if y = c then w.inFlight c else w.joined y) = none
            split
            · exact hapart.1
            · exact h.joined y
          · have hx' : (if y = c then w.done c else w.found y) = some x := hx
            rw [watch_state]
            by_cases hy : y = c
            · rw [if_pos hy] at hx'
              subst hy
              have hget := done_get hsorted halone hc hx'
              refine ⟨fun hmem => ?_, kind, name, ?_⟩
              · rcases Orchestrator.begun_step hstep hmem with hold |
                  ⟨kind', name', cp', -, hnone, hc'⟩
                · exact hheld.early y _ hc trivial hold
                · obtain ⟨-, rfl, hphase⟩ := StepCall.mk.inj (Option.some.inj (hc.symm.trans hc'))
                  obtain rfl := CallPhase.started.inj hphase
                  exact absurd (hget.symm.trans hnone) (by simp)
              · refine Orchestrator.enters_found hstep hc hget fun hkind => ?_
                have hall := hapart.2 (by simp [hc, hkind])
                simpa [hx'] using hall
            · rw [if_neg hy] at hx'
              exact hkept (fun _ => by simp) y x hx'
  | _ => exact hsame (fun _ => by simp) rfl rfl

/-! ### Runs -/

/-- What is kept along a run. -/
structure Tracked (w : Watched ν) : Prop where
  held : w.state.Held
  loading : w.state.Loading
  owners : w.state.OwnersWrote
  alone : w.state.Alone
  sorted : Sorted w
  found : Found w

theorem tracked_fresh (budget : WorkflowBudget) (store : Option Checkpoint)
    (ledger : List Charge) : Tracked (fresh budget store ledger : Watched ν) where
  held := Orchestrator.held_fresh budget store ledger
  loading := Orchestrator.loading_fresh budget store ledger
  owners c hc := by
    obtain ⟨job, hmem, -⟩ := Orchestrator.mem_owners.mp hc
    exact absurd hmem List.not_mem_nil
  alone := Orchestrator.alone_fresh budget store ledger
  sorted := sorted_fresh budget store ledger
  found := found_fresh budget store ledger

theorem Tracked.startedOnce (h : Tracked w) : StartedOnce w where
  once := by
    have hkeys := List.pairwise_map.mp h.alone.once
    refine List.pairwise_map.mpr (hkeys.imp_of_mem fun {x y} hx hy hne heq => hne ?_)
    obtain ⟨hrun, hname⟩ := Prod.mk.inj heq
    have hcp := (h.sorted.same x.call y.call x.cp y.cp (.inr ⟨x, hx, rfl, rfl⟩)
      (.inr ⟨y, hy, rfl, rfl⟩)).mp hrun
    rw [hcp, hname]
  begun x hx := (h.held.written x hx).2.1
  joined c d hd := absurd ((h.found.joined c).symm.trans hd) (by simp)
  found := h.found.found

section

variable [Arithmetic]

/-- **A step before which no call looks beside another keeps all of it.** -/
theorem tracked_step {e : OrchestratorEvent ν} (h : Tracked w) (hapart : w.Apart e)
    (hstep : step opts w e = some w') : Tracked w' := by
  obtain ⟨s', hs', rfl⟩ := Option.map_eq_some_iff.mp hstep
  have halone : s'.Alone := by
    refine Orchestrator.alone_step h.alone h.held hs' fun c kind name cp he hc d => ?_
    subst he
    exact not_worksAt h.sorted h.held hc hapart.1 d
  refine ⟨?_, ?_, ?_, ?_, sorted_step h.sorted h.held h.loading hs',
    found_step h.found h.sorted h.held h.owners h.alone hapart hs'⟩ <;> rw [watch_state]
  · exact Orchestrator.held_step h.held hs'
  · exact Orchestrator.loading_step h.loading hs'
  · exact Orchestrator.ownersWrote_step h.owners hs'
  · exact halone

/-- **Each name is done once between two resets**, in every state of a run in which no call
looks at its map while another one of its name is at work. -/
theorem started_once {budget : WorkflowBudget} {store : Option Checkpoint} {ledger : List Charge}
    {es : List (OrchestratorEvent ν)}
    (hapart : Steps.Along (step opts) Apart (fresh budget store ledger) es)
    (hrun : Steps.run (step opts) (fresh budget store ledger) es = some w) : StartedOnce w := by
  refine (Steps.run_invariant (C := Apart) (P := Tracked) ?_ ?_ hapart hrun).startedOnce
  · intro v e v' hv hc hstep
    exact tracked_step hv hc hstep
  · exact tracked_fresh budget store ledger

end

end

/-! ### Two runs -/

attribute [local instance] Arithmetic.double

open Orchestrator (plainOptions noBudget)

/-- The events of a step that is dispatched and answered. -/
def worked (c : ℕ) (taskId result : JsString) : List (OrchestratorEvent Unit) :=
  [.dispatched c (.ok taskId), .waited c (.ok result)]

/-- A step is done, and asked for again. -/
def askedAgain : List (OrchestratorEvent Unit) :=
  [.call .runStep (js "plan"), .storeReads 0, .loadReturns 0, .loaded 0, .checked 0, .enters 0]
    ++ worked 0 (js "task-1") (js "done")
    ++ [.call .runStep (js "plan"), .loaded 1, .checked 1, .enters 1]

theorem started_once_again : ∃ w, Steps.run (step plainOptions) (fresh noBudget none []) askedAgain
    = some w ∧ StartedOnce w := by
  have hsome :
      (Steps.run (step plainOptions) (fresh noBudget none []) askedAgain).isSome = true := by
    decide +kernel
  obtain ⟨w, hrun⟩ := Option.isSome_iff_exists.mp hsome
  exact ⟨w, hrun, started_once (by decide +kernel) hrun⟩

/-- Two calls of one name look before either has its result. -/
def askedTwice : List (OrchestratorEvent Unit) :=
  [.call .runStep (js "plan"), .call .runStep (js "plan"), .storeReads 0, .loadReturns 0,
    .loaded 0, .loaded 1, .checked 0, .checked 1, .enters 0, .enters 1]
    ++ worked 0 (js "task-1") (js "done") ++ worked 1 (js "task-2") (js "done again")

/-- Both do the work of the step. -/
theorem step_done_twice : ¬ ∀ (opts : OrchestratorOptions Unit) (budget : WorkflowBudget)
    (store : Option Checkpoint) (ledger : List Charge) (es : List (OrchestratorEvent Unit))
    (w : Watched Unit), Steps.run (step opts) (fresh budget store ledger) es = some w →
    StartedOnce w := by
  intro h
  have htwice : (Steps.run (step plainOptions) (fresh noBudget none []) askedTwice).any
      (fun w => !decide (w.state.writes.map fun x => (w.run x.call, x.name)).Nodup) = true := by
    decide +kernel
  obtain ⟨w, hrun, hw⟩ := (Option.any_eq_true _ _).mp htwice
  have honce := (h plainOptions noBudget none [] askedTwice w hrun).once
  exact absurd (decide_eq_true honce) (by simpa using hw)

end Watched

end Kaiban
