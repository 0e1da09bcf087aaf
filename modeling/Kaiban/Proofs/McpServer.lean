/-
Nothing is dispatched over MCP without consent.

A message on a mailbox belongs to one call of the tool.  Its client was asked about just that
task and agreed, unless the server asks nobody, and the task was found to be valid.  A call
puts at most one message there, and what it is answered says whether it did.
-/
import Kaiban.McpServer
import Kaiban.Proofs.TaskInput

open JsString

namespace Kaiban

/-- A task that is dispatched goes to a served agent, with the texts of the call. -/
theorem dispatchTask_ok {args : DispatchTaskArgs} {agentIds : List JsString}
    {agentId : JsString} {data : MessageData}
    (h : dispatchTask args agentIds = .ok (agentId, data)) :
    agentId = args.agentId ∧ agentId ∈ agentIds ∧ jsonBytes (.obj data) ≤ 65536 ∧
      Json.get data (js "instruction") = some (.str args.instruction) := by
  unfold dispatchTask at h
  split at h
  · exact absurd h (by simp)
  · exact absurd h (by simp)
  · next p hp =>
      obtain ⟨rfl, rfl⟩ := Prod.mk.inj (Except.ok.inj h)
      have haccepts := (validateTaskInput_ok_iff _ _ _).mp hp
      have hid : Json.get (mcpParams args) (js "agentId") = some (.str args.agentId) := by
        unfold mcpParams
        cases args.expectedOutput <;> rfl
      have hinstruction : Json.get (mcpParams args) (js "instruction") =
          some (.str args.instruction) := by
        unfold mcpParams
        cases args.expectedOutput <;> rfl
      have hagent := haccepts.agent
      rw [hid] at hagent
      -- the data are members of what was checked
      have hdata : (p.instruction.map fun s => (js "instruction", Json.str s)).toList ++
          (p.expectedOutput.map fun s => (js "expectedOutput", Json.str s)).toList =
          pickedMembers (mcpParams args) [js "instruction", js "expectedOutput"] := by
        unfold pickedMembers
        simp only [List.flatMap_cons, List.flatMap_nil, List.append_nil, haccepts.instruction.1,
          haccepts.expectedOutput.1, Option.map_map]
        rfl
      refine ⟨(Option.some.inj hagent).symm, haccepts.served _ rfl, ?_, ?_⟩
      · rw [hdata]
        exact (jsonBytes_subperm (pickedMembers_subperm (by decide))).trans haccepts.size
      · rw [hdata, get_pickedMembers, if_pos (by simp), hinstruction]

namespace McpServer

variable {deps : McpServerDeps} {uuid : ℕ → JsString} {s t : McpServer}

/-- The messages of a call. -/
def sent (s : McpServer) (k : ℕ) : List McpDispatch := s.mailbox.filter fun m => m.call = k

/-- The client was asked about the task of the call and agreed. -/
def Consented (c : McpDispatchCall) : Prop :=
  c.asked = some (consentMessage c.input) ∧
    ∃ r, c.reply = some r ∧ r.action = .accept ∧ r.confirm = some (.bool true)

/-- A message that the call was allowed to send. -/
structure Authorised (deps : McpServerDeps) (uuid : ℕ → JsString) (c : McpDispatchCall)
    (m : McpDispatch) : Prop where
  task : dispatchTask c.input deps.agentIds = .ok (m.agentId, m.data)
  taskId : m.taskId = uuid m.call
  consent : deps.requireDispatchConsent ≠ some false → Consented c

/-- The messages of a call by what it is at. -/
def SentOk (n : ℕ) : McpDispatchPhase → Prop
  | .asking | .answered (.refused _) => n = 0
  | .publishing | .answered (.dispatched _ _) => n = 1
  | .answered (.failed _) => n ≤ 1

structure Sound (deps : McpServerDeps) (uuid : ℕ → JsString) (s : McpServer) : Prop where
  called : ∀ k c, s.calls k = some c → accepts deps c.input = true
  sent : ∀ k c, s.calls k = some c → SentOk (s.sent k).length c.phase
  unsent : ∀ k, s.calls k = none → s.sent k = []
  asking : ∀ k c, s.calls k = some c → c.phase = .asking →
    deps.requireDispatchConsent ≠ some false ∧ c.asked = some (consentMessage c.input)
  authorised : ∀ m ∈ s.mailbox, ∃ c, s.calls m.call = some c ∧ Authorised deps uuid c m

theorem init_sound : Sound deps uuid init :=
  ⟨by simp [init], by simp [init], fun _ _ => rfl, by simp [init], by simp [init]⟩

/-- A call goes on, with the messages it sends. -/
theorem Sound.goesOn (h : s.Sound deps uuid) {k : ℕ} {c : McpDispatchCall}
    (more : List McpDispatch)
    (hcalled : accepts deps c.input = true)
    (hsent : SentOk ((s.sent k).length + more.length) c.phase)
    (hasking : c.phase = .asking →
      deps.requireDispatchConsent ≠ some false ∧ c.asked = some (consentMessage c.input))
    (hold : ∀ old, s.calls k = some old → ∀ m ∈ s.sent k, Authorised deps uuid old m →
      Authorised deps uuid c m)
    (hmore : ∀ m ∈ more, m.call = k ∧ Authorised deps uuid c m) :
    Sound deps uuid { s.setCall k c with mailbox := s.mailbox ++ more } := by
  have hsentOf (j : ℕ) : McpServer.sent { s.setCall k c with mailbox := s.mailbox ++ more } j =
      s.sent j ++ if j = k then more else [] := by
    show (s.mailbox ++ more).filter _ = s.mailbox.filter _ ++ _
    rw [List.filter_append]
    congr 1
    split
    · next hj =>
        rw [hj, List.filter_eq_self]
        intro m hm
        simpa using (hmore m hm).1
    · next hj =>
        rw [List.filter_eq_nil_iff]
        intro m hm
        rw [(hmore m hm).1]
        simpa using Ne.symm hj
  have hcalls (j : ℕ) : (s.setCall k c).calls j = if j = k then some c else s.calls j := rfl
  refine ⟨fun j x hx => ?_, fun j x hx => ?_, fun j hx => ?_, fun j x hx => ?_, fun m hm => ?_⟩
  · rw [hcalls] at hx
    split at hx
    · obtain rfl := Option.some.inj hx
      exact hcalled
    · exact h.called j x hx
  · rw [hcalls] at hx
    rw [hsentOf]
    split at hx
    · next hj =>
        obtain rfl := Option.some.inj hx
        rw [if_pos hj, List.length_append, hj]
        exact hsent
    · next hj =>
        rw [if_neg hj, List.append_nil]
        exact h.sent j x hx
  · rw [hcalls] at hx
    rw [hsentOf]
    split at hx
    · exact absurd hx (by simp)
    · next hj =>
        rw [if_neg hj, List.append_nil]
        exact h.unsent j hx
  · rw [hcalls] at hx
    split at hx
    · obtain rfl := Option.some.inj hx
      exact hasking
    · exact h.asking j x hx
  · rw [hcalls]
    rcases List.mem_append.mp hm with hbefore | hnew
    · obtain ⟨x, hx, hauth⟩ := h.authorised m hbefore
      split
      · next hk =>
          rw [hk] at hx
          have hsentk : m ∈ s.sent k := List.mem_filter.mpr ⟨hbefore, by simpa using hk⟩
          exact ⟨c, rfl, hold x hx m hsentk hauth⟩
      · exact ⟨x, hx, hauth⟩
    · obtain ⟨hk, hauth⟩ := hmore m hnew
      rw [if_pos hk]
      exact ⟨c, rfl, hauth⟩

/-- A call goes on without a message. -/
theorem Sound.quiet (h : s.Sound deps uuid) {k : ℕ} {c : McpDispatchCall}
    (hcalled : accepts deps c.input = true) (hsent : SentOk (s.sent k).length c.phase)
    (hasking : c.phase = .asking →
      deps.requireDispatchConsent ≠ some false ∧ c.asked = some (consentMessage c.input))
    (hold : ∀ old, s.calls k = some old → ∀ m ∈ s.sent k, Authorised deps uuid old m →
      Authorised deps uuid c m) : (s.setCall k c).Sound deps uuid := by
  have hgoes := h.goesOn [] hcalled hsent hasking hold (by simp)
  rw [List.append_nil] at hgoes
  exact hgoes

theorem Authorised.same {c d : McpDispatchCall} {m : McpDispatch} (h : Authorised deps uuid c m)
    (hinput : d.input = c.input) (hasked : d.asked = c.asked) (hreply : d.reply = c.reply) :
    Authorised deps uuid d m := by
  refine ⟨by rw [hinput]; exact h.task, h.taskId, fun hrequired => ?_⟩
  unfold Consented
  rw [hinput, hasked, hreply]
  exact h.consent hrequired

/-- A call that has sent nothing is answered. -/
theorem Sound.answered (h : s.Sound deps uuid) {k : ℕ} {c : McpDispatchCall}
    (hcalled : accepts deps c.input = true) (hnone : s.sent k = []) {a : McpDispatchAnswer}
    (ha : SentOk 0 (.answered a)) : (s.answer k c a).Sound deps uuid := by
  refine h.quiet hcalled ?_ (fun hphase => absurd hphase (by simp)) fun old _ m hm => ?_
  · rw [hnone]
    exact ha
  · rw [hnone] at hm
    exact absurd hm (by simp)

/-- A call that has sent nothing puts its task on the mailbox, when it may. -/
theorem Sound.dispatch (h : s.Sound deps uuid) {k : ℕ} {c : McpDispatchCall}
    (hcalled : accepts deps c.input = true) (hnone : s.sent k = [])
    (hconsent : deps.requireDispatchConsent ≠ some false → Consented c) :
    (s.dispatch deps uuid k c).Sound deps uuid := by
  unfold McpServer.dispatch
  split
  · exact h.answered hcalled hnone (Nat.zero_le 1)
  · next agentId data htask =>
      refine h.goesOn (c := { c with phase := .publishing }) _ hcalled ?_
        (fun hphase => absurd hphase (by simp)) (fun old _ m hm => ?_) fun m hm => ?_
      · rw [hnone]
        rfl
      · rw [hnone] at hm
        exact absurd hm (by simp)
      · rw [List.mem_singleton.mp hm]
        exact ⟨rfl, htask, rfl, hconsent⟩

/-- What was put on the mailbox is answered. -/
theorem Sound.settled (h : s.Sound deps uuid) {k : ℕ} {c : McpDispatchCall}
    (hc : s.calls k = some c) (hphase : c.phase = .publishing) {a : McpDispatchAnswer}
    (ha : SentOk 1 (.answered a)) : (s.answer k c a).Sound deps uuid := by
  have hone := h.sent k c hc
  rw [hphase] at hone
  refine h.quiet (h.called k c hc) ?_ (fun hp => absurd hp (by simp)) fun old hold m _ hauth => ?_
  · rw [show (s.sent k).length = 1 from hone]
    exact ha
  · obtain rfl := Option.some.inj (hc.symm.trans hold)
    exact hauth.same rfl rfl rfl

theorem refusal_none {r : ElicitResult} (h : refusal r = none) :
    r.action = .accept ∧ r.confirm = some (.bool true) := by
  unfold refusal at h
  split at h
  · exact absurd h (by simp)
  · next haccept =>
      split at h
      · next hconfirm => exact ⟨by simpa using haccept, hconfirm⟩
      · exact absurd h (by simp)

theorem Sound.handleDispatch (h : s.Sound deps uuid) {k : ℕ} (hnone : s.calls k = none)
    {input : DispatchTaskArgs} (hinput : accepts deps input = true) (elicitation : Bool) :
    (s.handleDispatch deps uuid k input elicitation).Sound deps uuid := by
  have hunsent := h.unsent k hnone
  unfold McpServer.handleDispatch
  split
  · next hrequired =>
      split
      · refine h.quiet hinput ?_ (fun _ => ⟨hrequired, rfl⟩) fun old hold => ?_
        · rw [hunsent]
          rfl
        · exact absurd (hnone.symm.trans hold) (by simp)
      · exact h.answered hinput hunsent rfl
  · next hfree =>
      exact h.dispatch hinput hunsent fun hrequired => absurd hrequired hfree

theorem Sound.step (h : s.Sound deps uuid) {e : McpServerEvent}
    (hstep : s.step deps uuid e = some t) : t.Sound deps uuid := by
  cases e with
  | call k input elicitation =>
      rw [McpServer.step] at hstep
      split at hstep
      · next hnone =>
          split at hstep
          · next hinput =>
              obtain rfl := Option.some.inj hstep
              exact h.handleDispatch hnone hinput elicitation
          · exact absurd hstep (by simp)
      · exact absurd hstep (by simp)
  | elicited k r =>
      rw [McpServer.step] at hstep
      split at hstep
      · next c hc =>
          split at hstep
          · next hphase =>
              have hsent := h.sent k c hc
              rw [hphase] at hsent
              have hnone : s.sent k = [] := List.length_eq_zero_iff.mp hsent
              dsimp only at hstep
              split at hstep
              · obtain rfl := Option.some.inj hstep
                exact h.answered (c := { c with reply := some r }) (h.called k c hc) hnone rfl
              · next hgranted =>
                  obtain rfl := Option.some.inj hstep
                  refine h.dispatch (c := { c with reply := some r }) (h.called k c hc) hnone ?_
                  intro _
                  exact ⟨(h.asking k c hc hphase).2, r, rfl, refusal_none hgranted⟩
          · exact absurd hstep (by simp)
      · exact absurd hstep (by simp)
  | elicitFails k message =>
      rw [McpServer.step] at hstep
      split at hstep
      · next c hc =>
          split at hstep
          · next hphase =>
              obtain rfl := Option.some.inj hstep
              have hsent := h.sent k c hc
              rw [hphase] at hsent
              exact h.answered (h.called k c hc) (List.length_eq_zero_iff.mp hsent) (Nat.zero_le 1)
          · exact absurd hstep (by simp)
      · exact absurd hstep (by simp)
  | published k =>
      rw [McpServer.step] at hstep
      split at hstep
      · next c hc =>
          split at hstep
          · next hphase =>
              obtain rfl := Option.some.inj hstep
              exact h.settled hc hphase rfl
          · exact absurd hstep (by simp)
      · exact absurd hstep (by simp)
  | publishFails k message =>
      rw [McpServer.step] at hstep
      split at hstep
      · next c hc =>
          split at hstep
          · next hphase =>
              obtain rfl := Option.some.inj hstep
              exact h.settled hc hphase (le_refl 1)
          · exact absurd hstep (by simp)
      · exact absurd hstep (by simp)

/-- **Nothing is dispatched without consent.**  Of every run, with calls in any order: a
message belongs to a call of the tool, which is registered, and carries the valid task of this
call to a served agent; unless the server asks nobody, the client was asked about this task
and agreed.  A call sends at most one message, and what it is answered says whether it did. -/
theorem dispatched_with_consent {es : List McpServerEvent} {s : McpServer}
    (hrun : Steps.run (step deps uuid) init es = some s) :
    (∀ m ∈ s.mailbox, ∃ c, s.calls m.call = some c ∧ m.taskId = uuid m.call ∧
      isAllowed deps.allowTools mcpToolDispatch = true ∧
      m.agentId = c.input.agentId ∧ m.agentId ∈ deps.agentIds ∧
      jsonBytes (.obj m.data) ≤ 65536 ∧
      Json.get m.data (js "instruction") = some (.str c.input.instruction) ∧
      (deps.requireDispatchConsent ≠ some false → Consented c)) ∧
    ∀ k c, s.calls k = some c → SentOk (s.sent k).length c.phase := by
  have h : s.Sound deps uuid :=
    Steps.invariant (fun _ _ _ hs hstep => hs.step hstep) init_sound hrun
  refine ⟨fun m hm => ?_, h.sent⟩
  obtain ⟨c, hc, htask, htaskId, hconsent⟩ := h.authorised m hm
  obtain ⟨hagent, hserved, hsize, hinstruction⟩ := dispatchTask_ok htask
  have hcalled := h.called m.call c hc
  unfold accepts at hcalled
  simp only [Bool.and_eq_true] at hcalled
  exact ⟨c, hc, htaskId, hcalled.1.1, hagent, hserved, hsize, hinstruction, hconsent⟩

/-- A server that asks, with one agent. -/
def askingDeps : McpServerDeps := ⟨none, none, [js "w"]⟩

/-- Two calls, one of which is declined. -/
def consentRun : List McpServerEvent :=
  [.call 0 ⟨js "w", js "a", none⟩ true, .call 1 ⟨js "w", js "b", none⟩ true,
    .elicited 1 ⟨.accept, some (.bool true)⟩, .elicited 0 ⟨.decline, none⟩, .published 1]

theorem dispatched_with_consent_declined : ∃ s : McpServer,
    Steps.run (step askingDeps fun _ => js "t") init consentRun = some s ∧
    s.mailbox.map McpDispatch.call = [1] ∧
    ∀ m ∈ s.mailbox, ∃ c, s.calls m.call = some c ∧ Consented c := by
  have hends : ((Steps.run (step askingDeps fun _ => js "t") init consentRun).map fun s =>
      s.mailbox.map McpDispatch.call) = some [1] := by decide +kernel
  obtain ⟨s, hrun, hmailbox⟩ := Option.map_eq_some_iff.mp hends
  refine ⟨s, hrun, hmailbox, fun m hm => ?_⟩
  obtain ⟨c, hc, -, -, -, -, -, -, hconsent⟩ := (dispatched_with_consent hrun).1 m hm
  exact ⟨c, hc, hconsent (by decide)⟩

end McpServer

end Kaiban
