/-
A cleared workflow does not come back.

Jobs reach the store in the order they were asked for, so a wipe comes after every save
that was asked for before it.

A wipe gives the instance an empty map and a new generation.  The calls of before are held off
by one or the other: a call that has its map has an older one, and a call that still waits
for its load is told, by the generation it came in, that there was a wipe.  The loads of before
are held off by the generation alone.
-/
import Kaiban.Proofs.Orchestrator.BudgetStop

open JsString

namespace Kaiban

/-- The job has not called the store yet. -/
def JobPhase.Before : JobPhase → Prop
  | .queued => True
  | .loading _ => True
  | _ => False

/-- A call of before a wipe: it came in an older generation than `g`, or holds an older map
than `cp`. -/
def CallPhase.Old {ν : Type} (g cp : ℕ) : CallPhase ν → Prop
  | .loading generation _ => generation < g
  | .loaded generation _ => generation < g
  | .started held => held < cp
  | .dispatching held => held < cp
  | .waiting held _ => held < cp
  | .producing held => held < cp
  | .produced held _ => held < cp
  | _ => True

theorem CallPhase.Old.workMap {ν : Type} {g cp held : ℕ} {phase : CallPhase ν}
    (h : phase.Old g cp) (hwork : phase.workMap = some held) : held < cp := by
  cases phase <;> first
    | exact Option.some.inj hwork ▸ h
    | exact absurd hwork (by simp [CallPhase.workMap])

namespace Orchestrator

section

variable {ν : Type} {opts : OrchestratorOptions ν} {s s' : Orchestrator ν}

/-! ### The order of the calls to the store -/

/-- Jobs are numbered as they are asked for, and call the store in that order. -/
structure InOrder (s : Orchestrator ν) : Prop where
  numbered : ∀ job ∈ s.jobs, job.id < s.jobCount
  queue : s.jobs.Pairwise fun a b => a.id < b.id
  calls : s.storeCalls.Pairwise fun a b => a.job < b.job
  known : ∀ call ∈ s.storeCalls, call.job < s.jobCount
  left : ∀ call ∈ s.storeCalls, ∀ job ∈ s.jobs, call.job ≤ job.id
  before : ∀ call ∈ s.storeCalls, ∀ job ∈ s.jobs, job.phase.Before → call.job < job.id

theorem inOrder_fresh (budget : WorkflowBudget) (store : Option Checkpoint)
    (ledger : List Charge) : InOrder (fresh budget store ledger : Orchestrator ν) where
  numbered _ h := absurd h List.not_mem_nil
  queue := .nil
  calls := .nil
  known _ h := absurd h List.not_mem_nil
  left _ h := absurd h List.not_mem_nil
  before _ h := absurd h List.not_mem_nil

theorem InOrder.of_chain (h : InOrder s) (heq : s'.chain = s.chain) : InOrder s' := by
  simp only [chain, Chain.mk.injEq] at heq
  obtain ⟨-, hjobs, hcount, -, hcalls, -⟩ := heq
  refine ⟨?_, ?_, ?_, ?_, ?_, ?_⟩ <;> simp only [hjobs, hcount, hcalls]
  · exact h.numbered
  · exact h.queue
  · exact h.calls
  · exact h.known
  · exact h.left
  · exact h.before

theorem InOrder.enqueue (h : InOrder s) (kind : JobKind) : InOrder (s.enqueue kind) := by
  have hjobs : ∀ job ∈ (s.enqueue kind).jobs, job ∈ s.jobs ∨ job = ⟨s.jobCount, kind, .queued⟩ := by
    intro job hmem
    rcases List.mem_append.mp hmem with hold | hnew
    · exact .inl hold
    · exact .inr (List.mem_singleton.mp hnew)
  refine ⟨fun job hmem => ?_, ?_, h.calls, fun call hcall => ?_, fun call hcall job hmem => ?_,
    fun call hcall job hmem hp => ?_⟩
  · rcases hjobs job hmem with hold | rfl
    · exact Nat.lt_succ_of_lt (h.numbered job hold)
    · exact Nat.lt_succ_self _
  · refine List.pairwise_append.mpr ⟨h.queue, List.pairwise_singleton _ _, ?_⟩
    intro a ha b hb
    rw [List.mem_singleton.mp hb]
    exact h.numbered a ha
  · exact Nat.lt_succ_of_lt (h.known call hcall)
  · rcases hjobs job hmem with hold | rfl
    · exact h.left call hcall job hold
    · exact (h.known call hcall).le
  · rcases hjobs job hmem with hold | rfl
    · exact h.before call hcall job hold hp
    · exact h.known call hcall

/-- The head job goes on, and may call the store when it has not yet. -/
theorem InOrder.head (h : InOrder s) {job : Job} {rest : List Job} {phase : JobPhase}
    (hj : s.jobs = job :: rest) (hjobs : s'.jobs = { job with phase := phase } :: rest)
    (hcount : s'.jobCount = s.jobCount)
    (hcalls : (s'.storeCalls = s.storeCalls ∧ (phase.Before → job.phase.Before)) ∨
      (job.phase.Before ∧ ¬ phase.Before ∧
        ∃ record, s'.storeCalls = s.storeCalls ++ [⟨job.id, record⟩])) : InOrder s' := by
  have hqueue := h.queue
  rw [hj] at hqueue
  obtain ⟨hfirst, hrest⟩ := List.pairwise_cons.mp hqueue
  have hold : ∀ x ∈ s'.jobs, x = { job with phase := phase } ∨ x ∈ rest := by
    intro x hx
    rw [hjobs] at hx
    exact List.mem_cons.mp hx
  have hhead : job ∈ s.jobs := hj ▸ List.mem_cons_self
  have htail : ∀ x ∈ rest, x ∈ s.jobs := fun x hx => hj ▸ List.mem_cons_of_mem _ hx
  have hcall : ∀ call ∈ s'.storeCalls, call ∈ s.storeCalls ∨
      (call.job = job.id ∧ ¬ phase.Before) := by
    intro call hmem
    rcases hcalls with ⟨hsame, -⟩ | ⟨-, hnot, record, hnew⟩
    · exact .inl (hsame ▸ hmem)
    · rw [hnew] at hmem
      rcases List.mem_append.mp hmem with hmem | hmem
      · exact .inl hmem
      · rw [List.mem_singleton.mp hmem]
        exact .inr ⟨rfl, hnot⟩
  refine ⟨fun x hx => ?_, ?_, ?_, fun call hmem => ?_, fun call hmem x hx => ?_,
    fun call hmem x hx hp => ?_⟩
  · rw [hcount]
    rcases hold x hx with rfl | hx
    · exact h.numbered job hhead
    · exact h.numbered x (htail x hx)
  · rw [hjobs]
    exact List.pairwise_cons.mpr ⟨hfirst, hrest⟩
  · rcases hcalls with ⟨hsame, -⟩ | ⟨hbefore, -, record, hnew⟩
    · rw [hsame]
      exact h.calls
    · rw [hnew]
      refine List.pairwise_append.mpr ⟨h.calls, List.pairwise_singleton _ _, ?_⟩
      intro a ha b hb
      rw [List.mem_singleton.mp hb]
      exact h.before a ha job hhead hbefore
  · rw [hcount]
    rcases hcall call hmem with hmem | ⟨heq, -⟩
    · exact h.known call hmem
    · rw [heq]
      exact h.numbered job hhead
  · rcases hcall call hmem with hmem | ⟨heq, -⟩ <;> rcases hold x hx with rfl | hx
    · exact h.left call hmem job hhead
    · exact h.left call hmem x (htail x hx)
    · exact heq.le
    · rw [heq]
      exact (hfirst x hx).le
  · rcases hcall call hmem with hmem | ⟨heq, hnot⟩ <;> rcases hold x hx with rfl | hx
    · rcases hcalls with ⟨-, hkept⟩ | ⟨-, hnot, -⟩
      · exact h.before call hmem job hhead (hkept hp)
      · exact absurd hp hnot
    · exact h.before call hmem x (htail x hx) hp
    · exact absurd hp hnot
    · rw [heq]
      exact hfirst x hx

theorem InOrder.ended (h : InOrder s) {job : Job} {rest : List Job} (hj : s.jobs = job :: rest)
    (hjobs : s'.jobs = rest) (hcount : s'.jobCount = s.jobCount)
    (hcalls : s'.storeCalls = s.storeCalls) : InOrder s' := by
  have htail : ∀ x ∈ s'.jobs, x ∈ s.jobs := fun x hx => hj ▸ List.mem_cons_of_mem _ (hjobs ▸ hx)
  have hqueue := h.queue
  rw [hj] at hqueue
  refine ⟨fun x hx => ?_, hjobs ▸ (List.pairwise_cons.mp hqueue).2, hcalls ▸ h.calls, ?_, ?_, ?_⟩
  · rw [hcount]
    exact h.numbered x (htail x hx)
  · rw [hcalls, hcount]
    exact h.known
  · rw [hcalls]
    exact fun call hmem x hx => h.left call hmem x (htail x hx)
  · rw [hcalls]
    exact fun call hmem x hx => h.before call hmem x (htail x hx)

variable [Arithmetic] in
/-- **Every step keeps the jobs and their calls in order.** -/
theorem inOrder_step {e : OrchestratorEvent ν} (h : InOrder s) (hstep : s.step opts e = some s') :
    InOrder s' := by
  cases chain_step hstep with
  | quiet _ heq => exact h.of_chain heq
  | queued _ kind _ _ heq => exact (h.enqueue kind).of_chain heq
  | loading job rest owner hj hp hkind heq =>
      refine h.head hj (congrArg Chain.jobs heq) (congrArg Chain.jobCount heq)
        (.inl ⟨congrArg Chain.storeCalls heq, fun _ => ?_⟩)
      rw [hp]
      trivial
  | clearing job rest hj hp hkind heq =>
      refine h.head hj (congrArg Chain.jobs heq) (congrArg Chain.jobCount heq)
        (.inr ⟨?_, id, none, congrArg Chain.storeCalls heq⟩)
      rw [hp]
      trivial
  | writing job rest ref hj hp ho hkept heq =>
      refine h.head hj (congrArg Chain.jobs heq) (congrArg Chain.jobCount heq)
        (.inr ⟨?_, id, _, congrArg Chain.storeCalls heq⟩)
      rw [hp]
      trivial
  | saved job rest snap hj hp heq =>
      exact h.head hj (congrArg Chain.jobs heq) (congrArg Chain.jobCount heq)
        (.inl ⟨congrArg Chain.storeCalls heq, fun hb => absurd hb id⟩)
  | wiped job rest hj hp heq =>
      exact h.head hj (congrArg Chain.jobs heq) (congrArg Chain.jobCount heq)
        (.inl ⟨congrArg Chain.storeCalls heq, fun hb => absurd hb id⟩)
  | ended _ he job rest hj hp heq =>
      exact h.ended hj (congrArg Chain.jobs heq) (congrArg Chain.jobCount heq)
        (congrArg Chain.storeCalls heq)
  | crashed budget heq =>
      rw [heq]
      exact inOrder_fresh budget _ _

/-! ### After a wipe -/

/-- What the calls of before a wipe hold, and what has been written since.  `s` is the state
after the wipe. -/
structure AfterWipe (s t : Orchestrator ν) : Prop where
  loading : t.loading = some .reset
  loadCount : t.loadCount = s.loadCount
  loads : ∀ l, l < t.loadCount → (t.loads l).generation < s.generation
  cleared : t.cleared = true
  generation : s.generation ≤ t.generation
  checkpoint : s.checkpoint ≤ t.checkpoint
  callCount : s.callCount ≤ t.callCount
  old : ∀ c call, c < s.callCount → t.calls c = some call →
    call.phase.Old s.generation s.checkpoint
  wrote : ∀ w ∈ t.writes, s.checkpoint ≤ w.cp → s.callCount ≤ w.call
  present : ∀ cp name entry, s.checkpoint ≤ cp → cp ≤ t.checkpoint →
    (t.maps cp).get name = some entry → ∃ w ∈ t.writes, w.cp = cp ∧ w.name = name ∧ w.entry = entry

/-- A call of before the wipe never gets past its load. -/
theorem AfterWipe.old_moves {t : Orchestrator ν} (h : AfterWipe s t) {c : ℕ} {kind : CallKind}
    {name : JsString} {e : OrchestratorEvent ν} {phase phase' : CallPhase ν}
    (hold : phase.Old s.generation s.checkpoint)
    (hmoves : Moves opts t c kind name e phase phase') :
    phase'.Old s.generation s.checkpoint := by
  cases hmoves with
  | loaded generation ref ho hkind => exact hold
  | checked generation cp hgen =>
      have hlt : generation < s.generation := hold
      have hle := h.generation
      omega
  | waits cp taskId hfind => exact hold
  | produced cp value => exact hold
  | _ => trivial

/-- No load of before the wipe is restored. -/
theorem AfterWipe.load_old {t : Orchestrator ν} (h : AfterWipe s t) (hok : LoadsOk t) {l : ℕ}
    (hp : (t.loads l).phase ≠ .reading) : (t.loads l).generation ≠ t.generation := by
  have hlt := h.loads l (hok.asked hp)
  have hle := h.generation
  omega

section

variable [Arithmetic]

/-- A wipe makes everything there is old. -/
theorem afterWipe_reset (hfirst : FirstLoad s) (hstep : s.step opts .jobStarts = some s')
    (hreset : s.Resets .jobStarts) : AfterWipe s' s' := by
  obtain ⟨-, job, rest, hj, hp, hkind⟩ := hreset
  have hs : s' = s.jobStarted job rest := by
    obtain ⟨id, kind, phase⟩ := job
    obtain rfl : phase = .queued := hp
    simp only [step, hj] at hstep
    exact (Option.some.inj hstep).symm
  rcases s.jobStarted_cases job rest with ⟨owner, hsave, -⟩ | ⟨-, hstart⟩
  · exact absurd (hkind.symm.trans hsave) (by simp)
  · rw [hstart] at hs
    subst hs
    refine ⟨rfl, rfl, fun l hl => ?_, rfl, le_rfl, le_rfl, le_rfl, fun c call hc hcall => ?_,
      fun w hw hcp => ?_, fun cp name entry hle hle' hget => ?_⟩
    · exact Nat.lt_succ_of_le (hfirst.loading.ok.generations l hl)
    · obtain ⟨kind, name, phase⟩ := call
      have hheld : ∀ cp, phase.heldMap = some cp → cp < s.checkpoint + 1 := fun cp h =>
        Nat.lt_succ_of_le (hfirst.held.held c _ cp hcall h)
      cases phase with
      | loading generation ref =>
          exact Nat.lt_succ_of_le (hfirst.loading.waiting c _ _ _ _ hcall).1
      | loaded generation cp => exact Nat.lt_succ_of_le (hfirst.loading.given c _ _ _ _ hcall).1
      | started cp => exact hheld cp rfl
      | dispatching cp => exact hheld cp rfl
      | waiting cp taskId => exact hheld cp rfl
      | producing cp => exact hheld cp rfl
      | produced cp value => exact hheld cp rfl
      | _ => trivial
    · exact absurd (hfirst.held.written w hw).1 (not_le.mpr hcp)
    · obtain rfl : cp = s.checkpoint + 1 := le_antisymm hle' hle
      have hempty : (if s.checkpoint + 1 = s.checkpoint + 1 then .empty
        else s.maps (s.checkpoint + 1) : Checkpoint).get name = some entry := hget
      rw [if_pos rfl] at hempty
      exact absurd hempty (by simp [OrderedMap.get_empty])

theorem AfterWipe.loads_step {t t' : Orchestrator ν} {e : OrchestratorEvent ν}
    (h : AfterWipe s t) (hok : LoadsOk t) (hon : ¬ Crashes e) (hstep : t.step opts e = some t') :
    t'.loading = some .reset ∧ t'.loadCount = t.loadCount ∧ t.generation ≤ t'.generation ∧
      t.checkpoint ≤ t'.checkpoint ∧ ∀ l, (t'.loads l).generation = (t.loads l).generation := by
  have hset : ∀ (l : ℕ) (phase : LoadPhase) (x : ℕ),
      ((t.setLoad l phase).loads x).generation = (t.loads x).generation := by
    intro l phase x
    show (if x = l then _ else t.loads x).generation = _
    split <;> rfl
  have hsame : ∀ u : Orchestrator ν, t'.loadView = u.loadView → u.loading = t.loading →
      u.loadCount = t.loadCount → u.generation = t.generation → u.checkpoint = t.checkpoint →
      (∀ l, (u.loads l).generation = (t.loads l).generation) →
      t'.loading = some .reset ∧ t'.loadCount = t.loadCount ∧ t.generation ≤ t'.generation ∧
        t.checkpoint ≤ t'.checkpoint ∧ ∀ l, (t'.loads l).generation = (t.loads l).generation := by
    intro u heq hl hcount hgen hcp hloads
    simp only [loadView, LoadView.mk.injEq] at heq
    obtain ⟨h1, h2, h3, h4, h5⟩ := heq
    refine ⟨h3.trans (hl.trans h.loading), h2.trans hcount, (h4.trans hgen).ge, (h5.trans hcp).ge,
      fun l => ?_⟩
    rw [h1]
    exact hloads l
  cases Orchestrator.loads_step hstep with
  | quiet _ heq => exact hsame t heq rfl rfl rfl rfl fun _ => rfl
  | asked _ heq =>
      rcases t.ensureLoaded_cases with ⟨ref, -, hs⟩ | ⟨hnone, -⟩
      · rw [hs] at heq
        exact hsame t heq rfl rfl rfl rfl fun _ => rfl
      · exact absurd (h.loading.symm.trans hnone) (by simp)
  | read l _ _ heq => exact hsame _ heq rfl rfl rfl rfl (hset l _)
  | discarded l _ _ _ _ heq => exact hsame _ heq rfl rfl rfl rfl (hset l _)
  | restored l record ledger hp hgen _ => exact absurd hgen (h.load_old hok (by simp [hp]))
  | broken l record ledger hp hgen _ => exact absurd hgen (h.load_old hok (by simp [hp]))
  | threw l _ _ heq =>
      rcases t.loadFailed_cases l with ⟨hcurrent, -⟩ | ⟨-, hs⟩
      · exact absurd (h.loading.symm.trans hcurrent) (by simp)
      · rw [hs] at heq
        exact hsame _ heq rfl rfl rfl rfl (hset l _)
  | wiped heq =>
      simp only [loadView, LoadView.mk.injEq] at heq
      obtain ⟨h1, h2, h3, h4, h5⟩ := heq
      refine ⟨h3, h2, ?_, ?_, fun l => by rw [h1]; rfl⟩
      · rw [h4]
        exact Nat.le_succ _
      · rw [h5]
        exact Nat.le_succ _
  | crashed _ _ => exact absurd trivial hon

theorem AfterWipe.old_step {t t' : Orchestrator ν} {e : OrchestratorEvent ν} (h : AfterWipe s t)
    (hstep : t.step opts e = some t') (c : ℕ) (call : StepCall ν) (hc : c < s.callCount)
    (hcall : t'.calls c = some call) : call.phase.Old s.generation s.checkpoint := by
  cases call_step hstep c with
  | same h' => exact h.old c call hc (h' ▸ hcall)
  | called _ _ _ hcount _ _ _ _ => exact absurd (hcount ▸ hc) (not_lt.mpr h.callCount)
  | moved kind name phase phase' hold hmoves h' =>
      obtain rfl := Option.some.inj (hcall.symm.trans h')
      exact h.old_moves (h.old c _ hc hold) hmoves
  | began kind name cp he hold hget hname hbegun h' =>
      obtain rfl := Option.some.inj (hcall.symm.trans h')
      have hlt : cp < s.checkpoint := h.old c _ hc hold
      show CallPhase.Old s.generation s.checkpoint (if _ then _ else _)
      split <;> exact hlt
  | stored kind name phase cp entry hold hwrites hwritten h' =>
      obtain rfl := Option.some.inj (hcall.symm.trans h')
      trivial
  | signalled kind name cp hold h' =>
      obtain rfl := Option.some.inj (hcall.symm.trans h')
      trivial
  | crashed budget heq =>
      subst heq
      exact absurd hcall (by simp [fresh])

/-- A step writes for no call of before the wipe into a map of after it. -/
theorem AfterWipe.wrote_step {t t' : Orchestrator ν} {e : OrchestratorEvent ν} (h : AfterWipe s t)
    (hstep : t.step opts e = some t') (w : Write) (hw : w ∈ t'.writes)
    (hcp : s.checkpoint ≤ w.cp) : s.callCount ≤ w.call := by
  cases maps_step hstep with
  | kept hmaps hwritten => exact h.wrote w (hwritten ▸ hw) hcp
  | wrote c kind name phase cp entry hc hwrites hmap hmaps hwritten h' =>
      rw [hwritten] at hw
      rcases List.mem_append.mp hw with hold | hnew
      · exact h.wrote w hold hcp
      · obtain rfl := List.mem_singleton.mp hnew
        by_contra hlt
        have hold := h.old c _ (not_le.mp hlt) hc
        exact absurd hcp (not_le.mpr (hold.workMap hwrites.workMap))
  | crashed budget heq =>
      subst heq
      exact absurd hw List.not_mem_nil

theorem callCount_step {e : OrchestratorEvent ν} (hon : ¬ Crashes e)
    (hstep : s.step opts e = some s') : s.callCount ≤ s'.callCount := by
  have hsame : ∀ t : Orchestrator ν, s'.memory = t.memory → s.callCount ≤ t.callCount →
      s.callCount ≤ s'.callCount := by
    intro t heq hle
    have hcount : s'.callCount = t.callCount := congrArg Memory.callCount heq
    rw [hcount]
    exact hle
  cases calls_step hstep with
  | quiet _ heq => exact hsame s heq le_rfl
  | called _ _ _ _ heq => exact hsame _ heq (Nat.le_succ _)
  | moved _ _ _ _ _ _ _ _ heq => exact hsame _ heq le_rfl
  | began _ _ _ _ _ _ _ heq => exact hsame _ heq le_rfl
  | stored _ _ _ _ _ _ _ _ _ heq => exact hsame _ heq le_rfl
  | remapped _ _ _ _ _ heq => exact hsame (s.withSteps _) heq le_rfl
  | wiped heq => exact hsame s.reset heq le_rfl
  | signalled heq => exact hsame _ heq le_rfl
  | crashed _ _ => exact absurd trivial hon

/-- The instance goes on with its map, or begins an empty one. -/
theorem AfterWipe.map_step {t t' : Orchestrator ν} {e : OrchestratorEvent ν} (h : AfterWipe s t)
    (hok : LoadsOk t) (hon : ¬ Crashes e) (hstep : t.step opts e = some t') :
    t'.checkpoint = t.checkpoint ∨
      t'.checkpoint = t.checkpoint + 1 ∧ t'.maps (t.checkpoint + 1) = .empty := by
  have hsame : ∀ u : Orchestrator ν, t'.memory = u.memory → u.checkpoint = t.checkpoint →
      t'.checkpoint = t.checkpoint := by
    intro u heq hu
    have hcp : t'.checkpoint = u.checkpoint := congrArg Memory.checkpoint heq
    exact hcp.trans hu
  cases calls_step hstep with
  | quiet _ heq => exact .inl (hsame t heq rfl)
  | called _ _ _ _ heq => exact .inl (hsame _ heq rfl)
  | moved _ _ _ _ _ _ _ _ heq => exact .inl (hsame _ heq rfl)
  | began _ _ _ _ _ _ _ heq => exact .inl (hsame _ heq rfl)
  | stored _ _ _ _ _ _ _ _ _ heq => exact .inl (hsame _ heq rfl)
  | remapped l record ledger hp hgen _ => exact absurd hgen (h.load_old hok (by simp [hp]))
  | wiped heq =>
      refine .inr ⟨congrArg Memory.checkpoint heq, ?_⟩
      have hmaps : t'.maps = t.reset.maps := congrArg Memory.maps heq
      rw [hmaps]
      exact if_pos rfl
  | signalled heq => exact .inl (hsame _ heq rfl)
  | crashed _ _ => exact absurd trivial hon

theorem AfterWipe.present_step {t t' : Orchestrator ν} {e : OrchestratorEvent ν}
    (h : AfterWipe s t) (hok : LoadsOk t) (hon : ¬ Crashes e) (hstep : t.step opts e = some t')
    (cp : ℕ) (name : JsString) (entry : StepCheckpoint) (hle : s.checkpoint ≤ cp)
    (hle' : cp ≤ t'.checkpoint) (hget : (t'.maps cp).get name = some entry) :
    ∃ w ∈ t'.writes, w.cp = cp ∧ w.name = name ∧ w.entry = entry := by
  by_cases hold : cp ≤ t.checkpoint
  · cases maps_step hstep with
    | kept hmaps hwritten =>
        rw [hwritten]
        exact h.present cp name entry hle hold (hmaps cp hold ▸ hget)
    | wrote c kind name' phase cp' entry' hc hwrites hmap hmaps hwritten h' =>
        rw [hwritten]
        have hbefore : (t.maps cp).get name = some entry →
            ∃ w ∈ t.writes ++ [⟨cp', c, name', entry'⟩], w.cp = cp ∧ w.name = name ∧
              w.entry = entry := by
          intro hget'
          obtain ⟨w, hw, hrest⟩ := h.present cp name entry hle hold hget'
          exact ⟨w, List.mem_append_left _ hw, hrest⟩
        by_cases hcp : cp = cp'
        · subst hcp
          rw [hmap] at hget
          by_cases hname : name = name'
          · subst hname
            rw [OrderedMap.get_set_self] at hget
            obtain rfl := Option.some.inj hget
            exact ⟨_, List.mem_append_right _ (List.mem_singleton_self _), rfl, rfl, rfl⟩
          · rw [OrderedMap.get_set_ne _ _ hname] at hget
            exact hbefore hget
        · exact hbefore (hmaps cp hcp ▸ hget)
    | crashed budget heq =>
        subst heq
        exact absurd hget (by simp [fresh, OrderedMap.get_empty])
  · rcases h.map_step hok hon hstep with hsame | ⟨hnext, hempty⟩
    · exact absurd (hsame ▸ hle') hold
    · obtain rfl : cp = t.checkpoint + 1 := by omega
      rw [hempty, OrderedMap.get_empty] at hget
      exact absurd hget (by simp)

/-- **Every step keeps what is old old.** -/
theorem afterWipe_step {t t' : Orchestrator ν} {e : OrchestratorEvent ν} (h : AfterWipe s t)
    (hok : LoadsOk t) (hon : ¬ Crashes e) (hstep : t.step opts e = some t') : AfterWipe s t' := by
  obtain ⟨hloading, hcount, hgen, hcp, hloads⟩ := h.loads_step hok hon hstep
  have hcleared : t'.cleared = true :=
    (cleared_step hon hstep).elim (fun heq => heq.trans h.cleared) And.right
  refine ⟨hloading, hcount.trans h.loadCount, fun l hl => ?_, hcleared,
    h.generation.trans hgen, h.checkpoint.trans hcp, h.callCount.trans (callCount_step hon hstep),
    h.old_step hstep, h.wrote_step hstep, h.present_step hok hon hstep⟩
  rw [hloads]
  exact h.loads l (hcount ▸ hl)

/-! ### What is saved after a wipe -/

theorem writes_step {e : OrchestratorEvent ν} (hon : ¬ Crashes e) (hstep : s.step opts e = some s')
    {w : Write} (hw : w ∈ s.writes) : w ∈ s'.writes := by
  have hsame : ∀ t : Orchestrator ν, s'.memory = t.memory → w ∈ t.writes → w ∈ s'.writes := by
    intro t heq hmem
    have hwrites : s'.writes = t.writes := congrArg Memory.writes heq
    rw [hwrites]
    exact hmem
  cases calls_step hstep with
  | quiet _ heq => exact hsame s heq hw
  | called _ _ _ _ heq => exact hsame _ heq hw
  | moved _ _ _ _ _ _ _ _ heq => exact hsame _ heq hw
  | began _ _ _ _ _ _ _ heq => exact hsame _ heq hw
  | stored _ _ _ _ _ _ _ _ _ heq => exact hsame _ heq (List.mem_append_left _ hw)
  | remapped _ _ _ _ _ heq => exact hsame (s.withSteps _) heq hw
  | wiped heq => exact hsame s.reset heq hw
  | signalled heq => exact hsame _ heq hw
  | crashed _ _ => exact absurd trivial hon

/-- The steps of a record were all written since the wipe that led to `s`, by calls of after it,
and there is one that was. -/
structure OfNewSteps (s t : Orchestrator ν) (record : Checkpoint) : Prop where
  started : ∃ w ∈ t.writes, s.callCount ≤ w.call
  steps : ∀ name entry, name ≠ spendEntry → record.get name = some entry →
    ∃ w ∈ t.writes, s.callCount ≤ w.call ∧ w.name = name ∧ w.entry = entry

/-- What the store has been asked to save since the wipe. -/
def SavesNew (s t : Orchestrator ν) : Prop := ∃ calls, t.storeCalls = s.storeCalls ++ calls ∧
  ∀ call ∈ calls, ∀ record, call.record = some record → OfNewSteps s t record

/-- What a save takes after the wipe. -/
theorem AfterWipe.snapshot {t : Orchestrator ν} (h : AfterWipe s t)
    (hkept : ¬ (t.cleared = true ∧ t.steps.entries = [])) : OfNewSteps s t t.snapshot.record := by
  have hsteps : ∀ name entry, t.steps.get name = some entry →
      ∃ w ∈ t.writes, s.callCount ≤ w.call ∧ w.name = name ∧ w.entry = entry := by
    intro name entry hget
    obtain ⟨w, hw, hcp, hname, hentry⟩ := h.present _ name entry h.checkpoint le_rfl hget
    exact ⟨w, hw, h.wrote w hw (hcp ▸ h.checkpoint), hname, hentry⟩
  refine ⟨?_, fun name entry hname hget => hsteps name entry ?_⟩
  · have hne : t.steps.entries ≠ [] := fun hempty => hkept ⟨h.cleared, hempty⟩
    obtain ⟨x, hx⟩ := List.exists_mem_of_ne_nil _ hne
    obtain ⟨w, hw, hcall, -⟩ := hsteps x.1 x.2 (OrderedMap.get_eq_some.mpr hx)
    exact ⟨w, hw, hcall⟩
  · have hset : (t.steps.set spendEntry _).get name = some entry := hget
    rwa [OrderedMap.get_set_ne _ _ hname] at hset

theorem savesNew_step {t t' : Orchestrator ν} {e : OrchestratorEvent ν} (h : SavesNew s t)
    (hwipe : AfterWipe s t) (hon : ¬ Crashes e) (hstep : t.step opts e = some t') :
    SavesNew s t' := by
  obtain ⟨calls, hcalls, hnew⟩ := h
  have hgrow : ∀ record, OfNewSteps s t record → OfNewSteps s t' record := by
    intro record hr
    obtain ⟨w, hw, hcall⟩ := hr.started
    refine ⟨⟨w, writes_step hon hstep hw, hcall⟩, fun name entry hname hget => ?_⟩
    obtain ⟨w, hw, hrest⟩ := hr.steps name entry hname hget
    exact ⟨w, writes_step hon hstep hw, hrest⟩
  have hsame : ∀ u : Orchestrator ν, t'.chain = u.chain → u.storeCalls = t.storeCalls →
      SavesNew s t' := by
    intro u heq hu
    have hstore : t'.storeCalls = u.storeCalls := congrArg Chain.storeCalls heq
    exact ⟨calls, hstore.trans (hu.trans hcalls), fun call hmem record hr =>
      hgrow record (hnew call hmem record hr)⟩
  have hadd : ∀ call : StoreCall, t'.storeCalls = t.storeCalls ++ [call] →
      (∀ record, call.record = some record → OfNewSteps s t record) → SavesNew s t' := by
    intro call heq hcall
    refine ⟨calls ++ [call], by rw [heq, hcalls, List.append_assoc], fun x hx record hr => ?_⟩
    rcases List.mem_append.mp hx with hold | hlast
    · exact hgrow record (hnew x hold record hr)
    · rw [List.mem_singleton.mp hlast] at hr
      exact hgrow record (hcall record hr)
  cases chain_step hstep with
  | quiet _ heq => exact hsame t heq rfl
  | queued _ kind _ _ heq => exact hsame _ heq rfl
  | loading _ _ _ _ _ _ heq => exact hsame _ heq rfl
  | clearing job rest hj hp hkind heq =>
      exact hadd ⟨job.id, none⟩ (congrArg Chain.storeCalls heq) fun record hr =>
        absurd hr (by simp)
  | writing job rest ref hj hp ho hkept heq =>
      refine hadd ⟨job.id, some t.snapshot.record⟩ (congrArg Chain.storeCalls heq)
        fun record hr => ?_
      obtain rfl := Option.some.inj hr
      exact hwipe.snapshot hkept
  | saved _ _ _ _ _ heq => exact hsame _ heq rfl
  | wiped _ _ _ _ heq => exact hsame _ heq rfl
  | ended _ _ _ _ _ _ heq => exact hsame _ heq rfl
  | crashed _ _ => exact absurd trivial hon

end

/-! ### The calls that wait for a load of before the wipe -/

/-- The call came in an older generation and goes no further than its load. -/
inductive GivesUp (name : JsString) (generation : ℕ) (ref : LoadRef) : CallPhase ν → Prop
  | loading : GivesUp name generation ref (.loading generation ref)
  | loaded (cp : ℕ) : GivesUp name generation ref (.loaded generation cp)
  | notLoaded : GivesUp name generation ref (.rejected (.failed .load))
  | cleared : GivesUp name generation ref (.rejected (clearedError name))

variable [Arithmetic] in
/-- Such a call begins nothing, and the step that is left to it leads to its rejection. -/
structure Turned (opts : OrchestratorOptions ν) (t : Orchestrator ν) (c : ℕ) (kind : CallKind)
    (name : JsString) (generation : ℕ) (ref : LoadRef) : Prop where
  unbegun : c ∉ t.begun
  phase : ∃ phase, t.calls c = some ⟨kind, name, phase⟩ ∧ GivesUp name generation ref phase
  goesOn : t.calls c = some ⟨kind, name, .loading generation ref⟩ → ∀ ok, t.outcome ref = some ok →
    ∃ t', t.step opts (.loaded c) = some t' ∧
      (t'.calls c = some ⟨kind, name, .rejected (.failed .load)⟩ ∨
        t'.calls c = some ⟨kind, name, .loaded generation t.checkpoint⟩)
  rejects : ∀ cp, t.calls c = some ⟨kind, name, .loaded generation cp⟩ →
    ∃ t', t.step opts (.checked c) = some t' ∧
      t'.calls c = some ⟨kind, name, .rejected (clearedError name)⟩

/-- What is kept of a call that waited for a load of before the wipe. -/
structure Waits (t : Orchestrator ν) (c : ℕ) (kind : CallKind) (name : JsString)
    (generation : ℕ) (ref : LoadRef) : Prop where
  unbegun : c ∉ t.begun
  phase : ∃ phase, t.calls c = some ⟨kind, name, phase⟩ ∧ GivesUp name generation ref phase

theorem GivesUp.not_work {name : JsString} {generation : ℕ} {ref : LoadRef} {phase : CallPhase ν}
    (h : GivesUp name generation ref phase) : phase.workMap = none := by
  cases h <;> rfl

theorem GivesUp.not_ends {name : JsString} {generation : ℕ} {ref : LoadRef} {phase : CallPhase ν}
    (h : GivesUp name generation ref phase) (result : Option JsString) : ¬ phase.Ends result := by
  cases h with
  | loading => exact id
  | loaded cp => exact id
  | notLoaded => exact fun hends => absurd hends (by simp [CallPhase.Ends])
  | cleared => exact fun hends => absurd hends (by simp [CallPhase.Ends, clearedError])

theorem GivesUp.moves {t : Orchestrator ν} (hwipe : AfterWipe s t) (hheld : Held t)
    (howners : OwnersWrote t) {c : ℕ} {kind : CallKind} {name : JsString} {generation : ℕ}
    {ref : LoadRef} {e : OrchestratorEvent ν} {phase phase' : CallPhase ν}
    (h : GivesUp name generation ref phase) (hkind : kind ≠ .isResuming)
    (hgen : generation < s.generation) (hc : t.calls c = some ⟨kind, name, phase⟩)
    (hmoves : Moves opts t c kind name e phase phase') : GivesUp name generation ref phase' := by
  cases hmoves with
  | notLoaded gen ref' => exact .notLoaded
  | answered gen ref' resuming hresuming => exact absurd hresuming hkind
  | loaded gen ref' ho _ =>
      cases h
      exact .loaded t.checkpoint
  | wiped gen cp hne => exact .cleared
  | checked gen cp heq =>
      cases h
      have hle := hwipe.generation
      omega
  | notSaved e' he phase howner =>
      -- A call that waits for a save has written its step.
      obtain ⟨w, hw, hcall⟩ := howners c howner
      obtain ⟨-, -, kind', phase'', hcalls, hends⟩ := hheld.written w hw
      rw [hcall] at hcalls
      obtain ⟨-, -, rfl⟩ := StepCall.mk.inj (Option.some.inj (hc.symm.trans hcalls))
      exact absurd hends (h.not_ends _)
  | _ => cases h

section

variable [Arithmetic]

theorem waits_step {t t' : Orchestrator ν} (hwipe : AfterWipe s t) (hheld : Held t)
    (howners : OwnersWrote t) {c : ℕ} {kind : CallKind} {name : JsString} {generation : ℕ}
    {ref : LoadRef} {e : OrchestratorEvent ν} (h : Waits t c kind name generation ref)
    (hkind : kind ≠ .isResuming) (hgen : generation < s.generation) (hon : ¬ Crashes e)
    (hstep : t.step opts e = some t') : Waits t' c kind name generation ref := by
  obtain ⟨hbegun, phase, hc, hgives⟩ := h
  refine ⟨fun hmem => ?_, ?_⟩
  · rcases begun_step hstep hmem with hold | ⟨kind', name', cp, -, -, hstarted⟩
    · exact hbegun hold
    · obtain ⟨-, -, rfl⟩ := StepCall.mk.inj (Option.some.inj (hc.symm.trans hstarted))
      cases hgives
  · cases call_step hstep c with
    | same h' => exact ⟨phase, h'.trans hc, hgives⟩
    | called _ _ _ hcount _ _ _ _ =>
        exact absurd (hheld.counted c _ hc) (by simp [hcount])
    | moved kind' name' old new hold hmoves h' =>
        obtain ⟨rfl, rfl, rfl⟩ := StepCall.mk.inj (Option.some.inj (hc.symm.trans hold))
        exact ⟨new, h', hgives.moves hwipe hheld howners hkind hgen hc hmoves⟩
    | began kind' name' cp he hold _ _ _ _ =>
        obtain ⟨-, -, rfl⟩ := StepCall.mk.inj (Option.some.inj (hc.symm.trans hold))
        cases hgives
    | stored kind' name' old cp entry hold hwrites _ _ =>
        obtain ⟨-, -, rfl⟩ := StepCall.mk.inj (Option.some.inj (hc.symm.trans hold))
        exact absurd (hwrites.workMap.symm.trans hgives.not_work) (by simp)
    | signalled kind' name' cp hold _ =>
        obtain ⟨-, -, rfl⟩ := StepCall.mk.inj (Option.some.inj (hc.symm.trans hold))
        cases hgives
    | crashed budget _ he => exact absurd (by rw [he]; trivial) hon

/-- The call is rejected by the one step that is left to it. -/
theorem Waits.turned {t : Orchestrator ν} {c : ℕ} {kind : CallKind} {name : JsString}
    {generation : ℕ} {ref : LoadRef} (h : Waits t c kind name generation ref)
    (hwipe : AfterWipe s t) (hkind : kind ≠ .isResuming) (hgen : generation < s.generation) :
    Turned opts t c kind name generation ref := by
  refine ⟨h.unbegun, h.phase, fun hc ok ho => ?_, fun cp hc => ?_⟩
  · refine ⟨t.callLoaded c kind generation ok, ?_, ?_⟩
    · simp only [step, hc, ho]
      rfl
    · rcases t.callLoaded_cases c kind generation ok with ⟨-, hs⟩ | ⟨-, hresuming, -⟩ | ⟨-, -, hs⟩
      · rw [hs]
        exact .inl (setPhase_self hc _)
      · exact absurd hresuming hkind
      · rw [hs]
        exact .inr (setPhase_self hc _)
  · refine ⟨t.callChecked c name generation cp, by simp only [step, hc], ?_⟩
    rcases t.callChecked_cases c name generation cp with ⟨-, hs⟩ | ⟨heq, -⟩
    · rw [hs]
      exact setPhase_self hc _
    · have hle := hwipe.generation
      omega

/-! ### The claim of the module -/

/-- What holds after a wipe, until the process ends: `s` is the state it left. -/
structure Finished (opts : OrchestratorOptions ν) (s t : Orchestrator ν) : Prop where
  /-- No record that is saved has a step of a call of before, and none is saved before a step
  of a new call is done. -/
  saves : SavesNew s t
  /-- Nothing is loaded any more. -/
  unloaded : t.loading = some .reset ∧ t.loadCount = s.loadCount
  /-- A load that was under way restores nothing, whether it succeeds or fails. -/
  discarded : ∀ l t', t.step opts (.loadReturns l) = some t' ∨
    t.step opts (.loadThrows l) = some t' →
      t'.steps = t.steps ∧ t'.totals = t.totals ∧ t'.stop = t.stop
  /-- A step that waited for its load is rejected and begins nothing. -/
  turned : ∀ c kind name generation ref, kind ≠ .isResuming →
    s.calls c = some ⟨kind, name, .loading generation ref⟩ →
      Turned opts t c kind name generation ref

/-- What holds of every wipe from a state on. -/
structure ClearFinal (opts : OrchestratorOptions ν) (s : Orchestrator ν) : Prop where
  /-- Jobs call the store in the order they were asked for, each when those of before are over. -/
  order : InOrder s
  finished : ∀ s', s.Resets .jobStarts → s.step opts .jobStarts = some s' →
    ∀ es t, (∀ e ∈ es, ¬ Crashes e) → Steps.run (step opts) s' es = some t → Finished opts s' t

/-- What the steps after a wipe keep. -/
structure SinceWipe (s t : Orchestrator ν) : Prop where
  wipe : AfterWipe s t
  first : FirstLoad t
  owners : OwnersWrote t
  saves : SavesNew s t
  waits : ∀ c kind name generation ref, kind ≠ .isResuming →
    s.calls c = some ⟨kind, name, .loading generation ref⟩ →
      generation < s.generation ∧ Waits t c kind name generation ref

theorem sinceWipe_reset (hfirst : FirstLoad s) (howners : OwnersWrote s)
    (hreset : s.Resets .jobStarts) (hstep : s.step opts .jobStarts = some s') :
    SinceWipe s' s' := by
  have hwipe : AfterWipe s' s' := afterWipe_reset hfirst hstep hreset
  have hfirst' : FirstLoad s' := firstLoad_step hfirst hstep
  refine ⟨hwipe, hfirst', ownersWrote_step howners hstep,
    ⟨[], (List.append_nil _).symm, fun _ hmem => absurd hmem List.not_mem_nil⟩,
    fun c kind name generation ref hkind hc => ⟨?_, ?_, _, hc, .loading⟩⟩
  · exact hwipe.old c _ (hfirst'.held.counted c _ hc) hc
  · exact hfirst'.held.early c _ hc trivial

theorem sinceWipe_step {t t' : Orchestrator ν} {e : OrchestratorEvent ν} (h : SinceWipe s t)
    (hon : ¬ Crashes e) (hstep : t.step opts e = some t') : SinceWipe s t' where
  wipe := afterWipe_step h.wipe h.first.loading.ok hon hstep
  first := firstLoad_step h.first hstep
  owners := ownersWrote_step h.owners hstep
  saves := savesNew_step h.saves h.wipe hon hstep
  waits c kind name generation ref hkind hc := by
    obtain ⟨hgen, hwaits⟩ := h.waits c kind name generation ref hkind hc
    exact ⟨hgen, waits_step h.wipe h.first.held h.owners hwaits hkind hgen hon hstep⟩

/-- A load of before the wipe leaves the steps, the totals and the stop as they are. -/
theorem AfterWipe.discards {t t' : Orchestrator ν} (h : AfterWipe s t) (hok : LoadsOk t) {l : ℕ}
    (hstep : t.step opts (.loadReturns l) = some t' ∨ t.step opts (.loadThrows l) = some t') :
    t'.steps = t.steps ∧ t'.totals = t.totals ∧ t'.stop = t.stop := by
  rcases hstep with hstep | hstep
  · cases transition hstep with
    | loadReturned _ record ledger hp =>
        have hold := h.load_old hok (l := l) (by simp [hp])
        rcases t.loadReturned_cases l record ledger with ⟨-, hs⟩ | ⟨hgen, -, -⟩ | ⟨_, hgen, -, -⟩
        · rw [hs]
          exact ⟨rfl, rfl, rfl⟩
        · exact absurd hgen hold
        · exact absurd hgen hold
  · cases transition hstep with
    | loadThrew _ hl hp =>
        rcases t.loadFailed_cases l with ⟨hcurrent, -⟩ | ⟨-, hs⟩
        · exact absurd (h.loading.symm.trans hcurrent) (by simp)
        · rw [hs]
          exact ⟨rfl, rfl, rfl⟩

theorem SinceWipe.finished {t : Orchestrator ν} (h : SinceWipe s t) : Finished opts s t where
  saves := h.saves
  unloaded := ⟨h.wipe.loading, h.wipe.loadCount⟩
  discarded _ _ hstep := h.wipe.discards h.first.loading.ok hstep
  turned c kind name generation ref hkind hc := by
    obtain ⟨hgen, hwaits⟩ := h.waits c kind name generation ref hkind hc
    exact hwaits.turned h.wipe hkind hgen

/-- **A workflow that was cleared does not come back**, in any run and after any of its
wipes. -/
theorem clear_final {budget : WorkflowBudget} {store : Option Checkpoint} {ledger : List Charge}
    {es : List (OrchestratorEvent ν)}
    (hrun : Steps.run (step opts) (fresh budget store ledger) es = some s) : ClearFinal opts s := by
  obtain ⟨horder, hfirst, howners⟩ : InOrder s ∧ FirstLoad s ∧ OwnersWrote s := by
    refine Steps.invariant (P := fun t => InOrder t ∧ FirstLoad t ∧ OwnersWrote t)
      (fun t e t' ht hstep => ?_) ⟨inOrder_fresh budget store ledger,
        firstLoad_fresh budget store ledger, fun c hc => ?_⟩ hrun
    · exact ⟨inOrder_step ht.1 hstep, firstLoad_step ht.2.1 hstep, ownersWrote_step ht.2.2 hstep⟩
    · obtain ⟨job, hmem, -⟩ := mem_owners.mp hc
      exact absurd hmem List.not_mem_nil
  refine ⟨horder, fun s' hreset hstep fs t hon hrun' => ?_⟩
  refine (Steps.run_invariant (C := fun _ e => ¬ Crashes e) (P := SinceWipe s') ?_
    (sinceWipe_reset hfirst howners hreset hstep) (Steps.along_of_mem fs s' hon) hrun').finished
  intro u e u' hu hc hstep'
  exact sinceWipe_step hu hc hstep'

end

end

/-! ### A run -/

attribute [local instance] Arithmetic.double

/-- A workflow is cleared while a step waits for its load. -/
def clearedWhileLoading : List (OrchestratorEvent Unit) :=
  [.call .runStep (js "plan"), .storeReads 0, .clear]

theorem clear_final_loading : ∃ s s', Steps.run (step plainOptions)
    (fresh noBudget none []) clearedWhileLoading = some s ∧
      step plainOptions s .jobStarts = some s' ∧ s'.cleared = true ∧
        ClearFinal plainOptions s := by
  have hsome : (Steps.run (step plainOptions) (fresh noBudget none [])
      clearedWhileLoading).any (fun s =>
        (step plainOptions s .jobStarts).any fun s' => s'.cleared) = true := by
    decide +kernel
  obtain ⟨s, hrun, hstarts⟩ := (Option.any_eq_true _ _).mp hsome
  obtain ⟨s', hstep, hcleared⟩ := (Option.any_eq_true _ _).mp hstarts
  exact ⟨s, s', hrun, hstep, hcleared, clear_final hrun⟩

end Orchestrator

end Kaiban
