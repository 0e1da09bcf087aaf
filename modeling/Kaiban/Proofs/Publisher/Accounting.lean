/-
The tallies of tokens, over every run of a publisher.

Usage reaches the tallies on four ways: with a result, with a failed attempt, and with
either of them after the signal was aborted.  Some of them pass through the `catch` of the
wrapper as well, and what is proved first is that each settlement moves the tallies by its
usage and no other reaction moves them.  The rest is about a history of amounts, where a
task's tally is its whole usage as long as it was not forgotten on the way.
-/
import Kaiban.Proofs.Publisher.Transitions

open JsString

namespace Kaiban

/-! ### What a settlement carries -/

/-- The usage a handler's outcome carries. -/
def HandlerOutcome.usage : HandlerOutcome → Option Amount
  | .returned r => r.tokenMeta.map SpendTotals.totalTokens
  | .threw (.failedAttempt _ usage) => some usage.tokens
  | .threw (.thrown _) => none

def HandlerError.usage : HandlerError → Option Amount
  | failedAttempt _ usage => some usage.tokens
  | thrown _ => none

/-- A result is a JSON value whose `answer`, if present, is a text. -/
def HandlerOutcome.Plain : HandlerOutcome → Prop
  | .returned r => ∃ v, r = .ofJson v ∧
      ∀ ms answer, v = .obj ms → Json.get ms (js "answer") = some answer → ∃ t, answer = .str t
  | .threw _ => True

/-- Every result of the event is plain. -/
def PublisherEvent.Plain : PublisherEvent → Prop
  | .settles _ out => out.Plain
  | _ => True

theorem HandlerOutcome.Plain.display {r : HandlerResult}
    (h : (HandlerOutcome.returned r).Plain) : ∃ t, r.display = .ok t := by
  obtain ⟨v, rfl, hanswer⟩ := h
  have hsome : ∃ t, formatDisplayResult v = some t := by
    cases v with
    | null => exact ⟨_, rfl⟩
    | bool b => exact ⟨_, rfl⟩
    | num n => exact ⟨_, rfl⟩
    | str s => exact ⟨_, rfl⟩
    | arr vs => exact ⟨_, rfl⟩
    | obj ms =>
        unfold formatDisplayResult
        dsimp only
        cases hget : Json.get ms (js "answer") with
        | none => exact ⟨_, rfl⟩
        | some answer =>
            obtain ⟨t, rfl⟩ := hanswer ms answer rfl hget
            exact ⟨_, rfl⟩
  obtain ⟨t, ht⟩ := hsome
  refine ⟨t, ?_⟩
  unfold HandlerResult.ofJson
  rw [ht]

/-- The two tallies. -/
structure Tallies where
  total : Amount
  tasks : OrderedMap JsString Amount

/-- The usage of a task added to both. -/
def Tallies.add (t : Tallies) (e : JsString × Amount) : Tallies :=
  ⟨t.total + e.2, t.tasks.tally maxTrackedTasks e.1 e.2⟩

/-- The usage of a task added to both, if there is any. -/
def Tallies.addSome (t : Tallies) (taskId : JsString) (usage : Option Amount) : Tallies :=
  match usage with
  | none => t
  | some u => t.add (taskId, u)

namespace AgentStatePublisher

variable {cfg : PublisherConfig} {s s' : AgentStatePublisher}

def tallies (s : AgentStatePublisher) : Tallies := ⟨s.totalTokensUsed, s.taskTokensUsed⟩

/-! ### What leaves the tallies alone -/

@[simp] theorem tallies_call (s : AgentStatePublisher) (c : PublisherCall) :
    (s.call c).tallies = s.tallies := rfl

@[simp] theorem tallies_publish (s : AgentStatePublisher) (row : Option AgentState)
    (card : Option TaskCard) : (s.publish row card).tallies = s.tallies := rfl

@[simp] theorem tallies_setCurrent (s : AgentStatePublisher) (status : AgentStatus)
    (taskId : Option JsString) : (s.setCurrent status taskId).tallies = s.tallies := rfl

@[simp] theorem tallies_setAttempt (s : AgentStatePublisher) (i : ℕ) (att : Attempt) :
    (s.setAttempt i att).tallies = s.tallies := rfl

@[simp] theorem tallies_publishError (s : AgentStatePublisher) (taskId title : JsString) :
    (s.publishError cfg taskId title).tallies = s.tallies := rfl

@[simp] theorem tallies_publishDone (s : AgentStatePublisher) (taskId title result : JsString)
    (usage : Option SpendTotals) :
    (s.publishDone cfg taskId title result usage).tallies = s.tallies := rfl

@[simp] theorem tallies_publishStopped (s : AgentStatePublisher) (p : Payload) :
    (s.publishStopped cfg p).tallies = s.tallies := by
  unfold publishStopped markStopped
  cases s.stoppedTaskIds.get p.taskId with
  | some _ => rfl
  | none =>
      dsimp only
      cases taskTitle p with
      | none => rfl
      | some title =>
          dsimp only
          split <;> rfl

@[simp] theorem tallies_publishSupersededFailure (s : AgentStatePublisher)
    (taskId title : JsString) :
    (s.publishSupersededFailure cfg taskId title).tallies = s.tallies := by
  unfold publishSupersededFailure
  split <;> rfl

/-! ### What one settlement adds -/

theorem tallies_accountTokens (cfg : PublisherConfig) (s : AgentStatePublisher) (taskId : JsString)
    (u : Amount)
    (detail : Option JsString) :
    (s.accountTokens cfg taskId u detail).1.tallies = s.tallies.add (taskId, u) := by
  unfold accountTokens
  dsimp only
  split
  · rfl
  · split <;> rfl

theorem tallies_accountFailedAttempt (cfg : PublisherConfig) (s : AgentStatePublisher)
    (taskId : JsString)
    (err : HandlerError) :
    (s.accountFailedAttempt cfg taskId err).1.tallies = s.tallies.addSome taskId err.usage := by
  cases err with
  | thrown e => rfl
  | failedAttempt message usage =>
      have h := tallies_accountTokens cfg s taskId usage.tokens
        (some (js "failed attempt: " ++ message))
      unfold accountFailedAttempt
      dsimp only
      rcases hres : s.accountTokens cfg taskId usage.tokens
        (some (js "failed attempt: " ++ message)) with ⟨after, breach⟩
      rw [hres] at h
      cases breach <;> exact h

/-- **The `catch` of the wrapper counts the usage of the error once**, whichever way the
attempt ends. -/
theorem tallies_caught (cfg : PublisherConfig) (s : AgentStatePublisher) (i : ℕ) (att : Attempt)
    (err : HandlerError) :
    (s.caught cfg i att err).1.tallies = s.tallies.addSome att.payload.taskId err.usage := by
  have h := tallies_accountFailedAttempt cfg s att.payload.taskId err
  unfold caught endedByEmergencyStop
  cases emergencyStopOf att.aborted err with
  | some stop =>
      show ((s.accountFailedAttempt cfg att.payload.taskId err).1.publishStopped cfg
        att.payload).tallies = _
      rw [tallies_publishStopped, h]
  | none =>
      dsimp only [Option.map_none]
      rcases hres : s.accountFailedAttempt cfg att.payload.taskId err with ⟨after, failure⟩
      rw [hres] at h
      dsimp only
      split
      · rw [tallies_publishSupersededFailure]
        exact h
      · exact h

theorem tallies_countLateTokens (cfg : PublisherConfig) (s : AgentStatePublisher)
    (taskId : JsString)
    (r : HandlerResult) :
    (s.countLateTokens cfg taskId r).tallies
      = s.tallies.addSome taskId (HandlerOutcome.returned r).usage := by
  unfold countLateTokens HandlerOutcome.usage
  dsimp only
  cases r.tokenMeta with
  | none => rfl
  | some late => exact tallies_accountTokens cfg s taskId late.totalTokens none

/-- **A settlement adds the usage it carries**, whether it is in time or late. -/
theorem tallies_settled (cfg : PublisherConfig) (s : AgentStatePublisher) (i : ℕ) (att : Attempt)
    {out : HandlerOutcome}
    (hplain : out.Plain) :
    (s.settled cfg i att out).1.tallies = s.tallies.addSome att.payload.taskId out.usage := by
  have hnone : ∀ (t : AgentStatePublisher) (e : Thrown),
      (t.caught cfg i att (.thrown e)).1.tallies = t.tallies :=
        fun t e => tallies_caught cfg t i att _
  cases out with
  | threw err =>
      have husage : (HandlerOutcome.threw err).usage = err.usage := by
        cases err <;> rfl
      rw [husage]
      exact tallies_caught cfg s i att err
  | returned r =>
      obtain ⟨t, ht⟩ := hplain.display
      unfold settled
      dsimp only
      cases haborted : att.aborted with
      | some reason => exact (hnone _ _).trans (tallies_countLateTokens cfg s att.payload.taskId r)
      | none =>
          dsimp only
          rw [ht]
          dsimp only
          cases husage : r.tokenMeta with
          | none =>
              show s.tallies = s.tallies.addSome att.payload.taskId
                (r.tokenMeta.map SpendTotals.totalTokens)
              rw [husage]
              rfl
          | some tokenMeta =>
              have hadd := tallies_accountTokens cfg (s.setCurrent .idle none)
                att.payload.taskId tokenMeta.totalTokens none
              have hcarried : s.tallies.addSome att.payload.taskId
                  (HandlerOutcome.returned r).usage
                  = s.tallies.add (att.payload.taskId, tokenMeta.totalTokens) := by
                show s.tallies.addSome _ (r.tokenMeta.map SpendTotals.totalTokens) = _
                rw [husage]
                rfl
              rw [hcarried]
              dsimp only
              rcases hres : (s.setCurrent .idle none).accountTokens cfg att.payload.taskId
                tokenMeta.totalTokens none with ⟨after, breach⟩
              rw [hres] at hadd
              cases breach with
              | none => exact hadd
              | some breach => exact (hnone _ _).trans hadd

/-! ### Histories -/

/-- What a reaction adds: the usage of an attempt that settles. -/
def accounting (s : AgentStatePublisher) : PublisherEvent → Option (JsString × Amount)
  | .settles i out =>
      (s.attempts i).bind fun att => out.usage.map fun u => (att.payload.taskId, u)
  | _ => none

/-- The usages of a run, in their order. -/
def history (cfg : PublisherConfig) : AgentStatePublisher → List PublisherEvent →
    List (JsString × Amount)
  | _, [] => []
  | s, e :: es =>
      (s.accounting e).toList ++
        match step cfg s e with
        | none => []
        | some s' => history cfg s' es

theorem accounting_settles {i : ℕ} {att : Attempt} (hatt : s.attempts i = some att)
    (out : HandlerOutcome) :
    s.accounting (.settles i out) = out.usage.map fun u => (att.payload.taskId, u) := by
  show ((s.attempts i).bind fun att => out.usage.map fun u => (att.payload.taskId, u)) = _
  rw [hatt]
  rfl

theorem history_cons {e : PublisherEvent} (hstep : step cfg s e = some s')
    (es : List PublisherEvent) :
    history cfg s (e :: es) = (s.accounting e).toList ++ history cfg s' es := by
  rw [history, hstep]

theorem tallies_invoked (cfg : PublisherConfig) (s : AgentStatePublisher) (p : Payload)
    (title : JsString) :
    (s.invoked cfg p title).tallies = s.tallies := by
  unfold invoked
  dsimp only
  split
  · rw [tallies_setAttempt]
    exact tallies_caught cfg _ _ _ _
  · rfl

/-- **Every reaction moves the tallies by what it accounts, and by nothing else.** -/
theorem tallies_step {e : PublisherEvent} (hplain : e.Plain) (hstep : step cfg s e = some s') :
    s'.tallies = (s.accounting e).toList.foldl Tallies.add s.tallies := by
  cases e with
  | invoke p =>
      simp only [step] at hstep
      split at hstep
      · rw [← Option.some.inj hstep]
        rfl
      · rw [← Option.some.inj hstep]
        exact tallies_invoked cfg s p _
  | abort i reason =>
      obtain ⟨att, -, rfl⟩ := Option.map_eq_some_iff.mp hstep
      rfl
  | settles i out =>
      obtain ⟨att, hatt, -, rfl⟩ := step_settles hstep
      rw [tallies_setAttempt, tallies_settled cfg s i att hplain, accounting_settles hatt]
      cases out.usage <;> rfl
  | publishStopped p =>
      rw [← Option.some.inj hstep]
      exact tallies_publishStopped s p
  | publishIdle =>
      rw [← Option.some.inj hstep]
      rfl
  | heartbeat =>
      rw [← Option.some.inj hstep]
      rfl

/-- The tallies of a run are those of its history. -/
theorem tallies_run {es : List PublisherEvent} (hplain : ∀ e ∈ es, e.Plain)
    (hrun : Steps.run (step cfg) s es = some s') :
    s'.tallies = (history cfg s es).foldl Tallies.add s.tallies := by
  induction es generalizing s with
  | nil =>
      obtain rfl : s = s' := by simpa using hrun
      rfl
  | cons e rest ih =>
      obtain ⟨m, hm, hrest⟩ := Steps.run_cons_some.mp hrun
      rw [history_cons hm, List.foldl_append, ← tallies_step (hplain e (by simp)) hm]
      exact ih (fun x hx => hplain x (by simp [hx])) hrest

theorem foldl_total (t : Tallies) (hist : List (JsString × Amount)) :
    (hist.foldl Tallies.add t).total = t.total + (hist.map Prod.snd).sum := by
  induction hist generalizing t with
  | nil => exact (add_zero _).symm
  | cons e rest ih =>
      rw [List.foldl_cons, ih, List.map_cons, List.sum_cons, ← add_assoc]
      rfl

theorem foldl_tasks (t : Tallies) (hist : List (JsString × Amount)) :
    (hist.foldl Tallies.add t).tasks = t.tasks.tallyAll maxTrackedTasks hist := by
  induction hist generalizing t with
  | nil => rfl
  | cons e rest ih => exact ih (t.add e)

/-! ### The caps -/

/-- A cap is there, and the amount reaches it. -/
def CapMet (cap : Option Decimal) (a : Amount) : Prop := ∃ c, cap = some c ∧ c ≤ a.val

theorem filter_cap {cap : Option Decimal} {a : Amount} :
    (cap.filter fun c => c ≤ a.val) = none ↔ ¬ CapMet cap a := by
  unfold CapMet
  cases cap with
  | none => simp
  | some c => simp

theorem assertCapsNotMet_none {taskId : JsString} (h : s.assertCapsNotMet cfg taskId = none) :
    ¬ CapMet (cappedAt cfg.maxTokenBudget) s.totalTokensUsed ∧
      ¬ CapMet (cappedAt cfg.maxTaskTokenBudget) ((s.taskTokensUsed.get taskId).getD 0) := by
  unfold assertCapsNotMet at h
  split at h
  · exact absurd h (by simp)
  · rename_i hagent
    dsimp only at h
    split at h
    · exact absurd h (by simp)
    · rename_i htask
      exact ⟨filter_cap.mp hagent, filter_cap.mp htask⟩

/-- A `BudgetExceededError` of the publisher. -/
def IsBreach (e : NonRetryableError) : Prop :=
  ∃ code message, e = .other code message ∧
    (code = js "token_budget_exceeded" ∨ code = js "task_token_budget_exceeded")

/-- **A cap that is reached is a breach.** -/
theorem accountTokens_breach {taskId : JsString} {u : Amount} (detail : Option JsString)
    (hmet : CapMet (cappedAt cfg.maxTokenBudget) (s.totalTokensUsed + u) ∨
      CapMet (cappedAt cfg.maxTaskTokenBudget) ((s.taskTokensUsed.get taskId).getD 0 + u)) :
    ∃ b, IsBreach b ∧ (s.accountTokens cfg taskId u detail).2 = some b := by
  unfold accountTokens
  dsimp only
  split
  · exact ⟨_, ⟨_, _, rfl, .inr rfl⟩, rfl⟩
  · rename_i htask
    split
    · exact ⟨_, ⟨_, _, rfl, .inl rfl⟩, rfl⟩
    · rename_i hagent
      rcases hmet with hmet | hmet
      · exact absurd hmet (filter_cap.mp hagent)
      · exact absurd hmet (filter_cap.mp htask)

theorem IsBreach.not_stop {b : NonRetryableError} (h : IsBreach b) : b.isEmergencyStop = false := by
  obtain ⟨code, message, rfl, -⟩ := h
  rfl

/-- A breach passes through the `catch` of an attempt that no stop ended. -/
theorem caught_breach {b : NonRetryableError} (hb : IsBreach b) {att : Attempt}
    (haborted : att.aborted = none) (i : ℕ) :
    (s.caught cfg i att (.thrown (.nonRetryable b))).2 = .thrown (.nonRetryable b) := by
  have hstop : emergencyStopOf att.aborted (.thrown (.nonRetryable b)) = none := by
    unfold emergencyStopOf
    dsimp only
    rw [hb.not_stop, haborted]
    rfl
  unfold caught endedByEmergencyStop accountFailedAttempt
  rw [hstop]
  dsimp only [Option.map_none]
  split <;> rfl

/-- **An attempt that reaches a cap in time ends with the breach.** -/
theorem settled_breach {att : Attempt} (haborted : att.aborted = none) {out : HandlerOutcome}
    (hplain : out.Plain) {u : Amount} (husage : out.usage = some u)
    (hmet : CapMet (cappedAt cfg.maxTokenBudget) (s.totalTokensUsed + u) ∨
      CapMet (cappedAt cfg.maxTaskTokenBudget)
        ((s.taskTokensUsed.get att.payload.taskId).getD 0 + u)) (i : ℕ) :
    ∃ b, IsBreach b ∧ (s.settled cfg i att out).2 = .threw (.nonRetryable b) := by
  cases out with
  | threw err =>
      cases err with
      | thrown e => exact absurd husage (by simp [HandlerOutcome.usage])
      | failedAttempt message usage =>
          obtain rfl : usage.tokens = u := Option.some.inj husage
          obtain ⟨b, hb, hres⟩ := accountTokens_breach
            (some (js "failed attempt: " ++ message)) hmet
          refine ⟨b, hb, ?_⟩
          have hstop : emergencyStopOf att.aborted (.failedAttempt message usage) = none := by
            rw [haborted]
            rfl
          have hfailed : (s.accountFailedAttempt cfg att.payload.taskId
              (.failedAttempt message usage)).2 = .thrown (.nonRetryable b) := by
            unfold accountFailedAttempt
            dsimp only
            rcases hpair : s.accountTokens cfg att.payload.taskId usage.tokens
              (some (js "failed attempt: " ++ message)) with ⟨after, breach⟩
            rw [hpair] at hres
            obtain rfl : breach = some b := hres
            rfl
          have hcaught : (s.caught cfg i att (.failedAttempt message usage)).2
              = .thrown (.nonRetryable b) := by
            unfold caught endedByEmergencyStop
            rw [hstop]
            dsimp only [Option.map_none]
            rcases hpair : s.accountFailedAttempt cfg att.payload.taskId
              (.failedAttempt message usage) with ⟨after, failure⟩
            rw [hpair] at hfailed
            obtain rfl : failure = .thrown (.nonRetryable b) := hfailed
            dsimp only
            split <;> rfl
          show Outcome.threw (s.caught cfg i att (.failedAttempt message usage)).2.seen = _
          rw [hcaught]
          rfl
  | returned r =>
      obtain ⟨t, ht⟩ := hplain.display
      have hmeta : ∃ tokenMeta, r.tokenMeta = some tokenMeta ∧ tokenMeta.totalTokens = u :=
        Option.map_eq_some_iff.mp husage
      obtain ⟨tokenMeta, htokens, rfl⟩ := hmeta
      obtain ⟨b, hb, hres⟩ := accountTokens_breach (s := s.setCurrent .idle none) none hmet
      refine ⟨b, hb, ?_⟩
      unfold settled
      dsimp only
      rw [haborted]
      dsimp only
      rw [ht, htokens]
      dsimp only
      rcases hpair : (s.setCurrent .idle none).accountTokens cfg att.payload.taskId
        tokenMeta.totalTokens none with ⟨after, breach⟩
      rw [hpair] at hres
      obtain rfl : breach = some b := hres
      show Outcome.threw ((after.publishError cfg att.payload.taskId att.title).caught cfg i att
        (.thrown (.nonRetryable b))).2.seen = _
      rw [caught_breach hb haborted]
      rfl

/-! ### Every run -/

/-- The tallies of a publisher are those of a history. -/
structure Accounts (s : AgentStatePublisher) (hist : List (JsString × Amount)) : Prop where
  total : s.totalTokensUsed = (hist.map Prod.snd).sum
  tasks : s.taskTokensUsed = OrderedMap.tallyAll maxTrackedTasks .empty hist

/-- What a reaction after a history does with the tallies and the caps. -/
structure AccountsStep (cfg : PublisherConfig) (hist : List (JsString × Amount))
    (s : AgentStatePublisher) (e : PublisherEvent) (s' : AgentStatePublisher) : Prop where
  /-- The tallies grow by the usage of an attempt that settles, and by nothing else. -/
  added : s'.tallies = (s.accounting e).toList.foldl Tallies.add s.tallies
  /-- The tally of the agent never decreases. -/
  grows : s.totalTokensUsed ≤ s'.totalTokensUsed
  /-- The tally of a task decreases only when it is dropped. -/
  kept : ∀ taskId a, s.taskTokensUsed.get taskId = some a →
    (∃ b, s'.taskTokensUsed.get taskId = some b ∧ a ≤ b) ∨ s'.taskTokensUsed.get taskId = none
  /-- No handler begins at the cap of the agent. -/
  agentCap : s'.handlers ≠ s.handlers →
    ¬ CapMet (cappedAt cfg.maxTokenBudget) s.totalTokensUsed
  /-- No handler of a task that was never forgotten begins at the cap of the task. -/
  taskCap : s'.handlers ≠ s.handlers → ∃ p, e = .invoke p ∧
    (OrderedMap.Steady maxTrackedTasks p.taskId hist →
      ¬ CapMet (cappedAt cfg.maxTaskTokenBudget) (OrderedMap.own p.taskId hist))
  /-- An attempt that reaches a cap in time ends with the breach. -/
  breach : ∀ i out att taskId u, e = .settles i out → s.attempts i = some att →
    att.aborted = none → s.accounting e = some (taskId, u) →
    CapMet (cappedAt cfg.maxTokenBudget) s'.totalTokensUsed ∨
      (∃ a, s'.taskTokensUsed.get taskId = some a ∧ CapMet (cappedAt cfg.maxTaskTokenBudget) a) →
    ∃ b, IsBreach b ∧
      (s'.attempts i).bind Attempt.ended = some (.threw (.nonRetryable b))

theorem accounts_run {es : List PublisherEvent} (hplain : ∀ e ∈ es, e.Plain)
    (hrun : Steps.run (step cfg) init es = some s) : Accounts s (history cfg init es) := by
  have h := tallies_run hplain hrun
  constructor
  · show s.tallies.total = _
    rw [h, foldl_total]
    exact zero_add _
  · show s.tallies.tasks = _
    rw [h, foldl_tasks]
    rfl

/-- A tally of a steady task is its whole usage. -/
theorem Accounts.own {hist : List (JsString × Amount)} (h : Accounts s hist) {taskId : JsString}
    (hsteady : OrderedMap.Steady maxTrackedTasks taskId hist) :
    (s.taskTokensUsed.get taskId).getD 0 = OrderedMap.own taskId hist := by
  rw [h.tasks, OrderedMap.get_tallyAll (by decide) hsteady]
  by_cases hk : taskId ∈ hist.map Prod.fst
  · rw [if_pos hk]
    rfl
  · rw [if_neg hk, OrderedMap.own_of_notMem hk]
    rfl

theorem accountsStep {hist : List (JsString × Amount)} (h : Accounts s hist) {e : PublisherEvent}
    (hplain : e.Plain) (hstep : step cfg s e = some s') : AccountsStep cfg hist s e s' := by
  have hadded := tallies_step hplain hstep
  refine ⟨hadded, ?_, ?_, ?_, ?_, ?_⟩
  · show s.tallies.total ≤ s'.tallies.total
    rw [hadded, foldl_total]
    exact le_add_of_nonneg_right (List.sum_nonneg fun a _ => a.2)
  · intro taskId a ha
    show (∃ b, s'.tallies.tasks.get taskId = some b ∧ a ≤ b) ∨ s'.tallies.tasks.get taskId = none
    rw [hadded]
    cases s.accounting e with
    | none => exact .inl ⟨a, ha, le_refl a⟩
    | some entry =>
        obtain ⟨other, u⟩ := entry
        show (∃ b, (s.taskTokensUsed.tally maxTrackedTasks other u).get taskId = some b ∧ a ≤ b) ∨
          (s.taskTokensUsed.tally maxTrackedTasks other u).get taskId = none
        by_cases hsame : taskId = other
        · subst hsame
          refine .inl ⟨(s.taskTokensUsed.get taskId).getD 0 + u,
            OrderedMap.get_touch_self (by decide) _ _ _, ?_⟩
          rw [ha]
          exact le_add_of_nonneg_right u.2
        · rcases OrderedMap.get_touch_ne maxTrackedTasks s.taskTokensUsed
            ((s.taskTokensUsed.get other).getD 0 + u) hsame with hget | hget
          · exact .inl ⟨a, hget.trans ha, le_refl a⟩
          · exact .inr hget
  · intro hbegun
    obtain ⟨p, -, hcaps⟩ := handlers_step hstep hbegun
    exact (assertCapsNotMet_none hcaps).1
  · intro hbegun
    obtain ⟨p, rfl, hcaps⟩ := handlers_step hstep hbegun
    refine ⟨p, rfl, fun hsteady => ?_⟩
    rw [← h.own hsteady]
    exact (assertCapsNotMet_none hcaps).2
  · rintro i out att taskId u rfl hatt haborted haccounted hmet
    rw [accounting_settles hatt] at haccounted
    obtain ⟨v, husage, hpair⟩ := Option.map_eq_some_iff.mp haccounted
    obtain ⟨rfl, rfl⟩ := Prod.mk.inj hpair
    have htallies : s'.tallies = s.tallies.add (att.payload.taskId, v) := by
      rw [hadded, accounting_settles hatt, husage]
      rfl
    have hmet' : CapMet (cappedAt cfg.maxTokenBudget) (s.totalTokensUsed + v) ∨
        CapMet (cappedAt cfg.maxTaskTokenBudget)
          ((s.taskTokensUsed.get att.payload.taskId).getD 0 + v) := by
      rcases hmet with hmet | ⟨a, ha, hmet⟩
      · have htotal : s'.totalTokensUsed = s.totalTokensUsed + v := congrArg Tallies.total htallies
        rw [htotal] at hmet
        exact .inl hmet
      · have htasks : s'.taskTokensUsed
            = s.taskTokensUsed.tally maxTrackedTasks att.payload.taskId v :=
          congrArg Tallies.tasks htallies
        have hget := OrderedMap.get_touch_self (n := maxTrackedTasks) (by decide) s.taskTokensUsed
          att.payload.taskId ((s.taskTokensUsed.get att.payload.taskId).getD 0 + v)
        rw [htasks] at ha
        obtain rfl := Option.some.inj (hget.symm.trans ha)
        exact .inr hmet
    obtain ⟨att', hatt', -, rfl⟩ := step_settles hstep
    obtain rfl : att = att' := Option.some.inj (hatt.symm.trans hatt')
    obtain ⟨b, hb, hended⟩ := settled_breach haborted hplain husage hmet' i
    refine ⟨b, hb, ?_⟩
    show (if i = i then some _ else _ : Option Attempt).bind Attempt.ended = _
    rw [if_pos rfl]
    exact congrArg some hended

/-- **The tallies are the usage of the attempts that settled, and the caps hold.** -/
theorem tallies_exact {es : List PublisherEvent} (hplain : ∀ e ∈ es, e.Plain)
    (hrun : Steps.run (step cfg) init es = some s) :
    Accounts s (history cfg init es) ∧
      ∀ e s', e.Plain → step cfg s e = some s' →
        AccountsStep cfg (history cfg init es) s e s' :=
  ⟨accounts_run hplain hrun, fun _ _ he hstep => accountsStep (accounts_run hplain hrun) he hstep⟩

/-! ### A task that was forgotten -/

/-- A result with 60 tokens. -/
def paidResult : Json :=
  .obj [(js "inputTokens", .num (.finite (Decimal.ofInt 60))),
    (js "outputTokens", .num (.finite (Decimal.ofInt 0)))]

def paidUsage : Amount :=
  cleanSpendAmount (some (.num (.finite (Decimal.ofInt 60))))
    + cleanSpendAmount (some (.num (.finite (Decimal.ofInt 0))))

theorem usage_paid : (HandlerOutcome.returned (.ofJson paidResult)).usage = some paidUsage := rfl

theorem plain_paid : (HandlerOutcome.returned (.ofJson paidResult)).Plain := by
  refine ⟨paidResult, rfl, fun ms answer hms hanswer => ?_⟩
  obtain rfl := Json.obj.inj hms
  exact absurd (hanswer.symm.trans (show Json.get _ (js "answer") = none from rfl)) (by simp)

/-- At most 100 tokens a task. -/
def taskCapped : PublisherConfig :=
  ⟨⟨js "writer", js "Writer", js "author"⟩, none, some (.finite (Decimal.ofInt 100))⟩

/-- A task is run, and its result has 60 tokens. -/
def taskEvents (attempt : ℕ) (taskId : JsString) : List PublisherEvent :=
  [.invoke ⟨taskId, js "writer", [], .finite (Decimal.ofInt 0)⟩,
    .settles attempt (.returned (.ofJson paidResult))]

/-- Tasks are run one after the other; `n` attempts came before. -/
def tasksEvents : ℕ → List JsString → List PublisherEvent
  | _, [] => []
  | n, taskId :: rest => taskEvents (n + 1) taskId ++ tasksEvents (n + 1) rest

theorem plain_taskEvents (n : ℕ) (taskId : JsString) : ∀ e ∈ taskEvents n taskId, e.Plain := by
  intro e he
  simp only [taskEvents, List.mem_cons, List.not_mem_nil, or_false] at he
  rcases he with rfl | rfl
  · trivial
  · exact plain_paid

theorem plain_tasksEvents (n : ℕ) (ids : List JsString) : ∀ e ∈ tasksEvents n ids, e.Plain := by
  induction ids generalizing n with
  | nil => simp [tasksEvents]
  | cons taskId rest ih =>
      intro e he
      rcases List.mem_append.mp he with he | he
      · exact plain_taskEvents _ _ e he
      · exact ih _ e he

theorem history_append {t : AgentStatePublisher} {es : List PublisherEvent}
    (hrun : Steps.run (step cfg) s es = some t) (fs : List PublisherEvent) :
    history cfg s (es ++ fs) = history cfg s es ++ history cfg t fs := by
  induction es generalizing s with
  | nil =>
      obtain rfl : s = t := by simpa using hrun
      rfl
  | cons e rest ih =>
      obtain ⟨m, hm, hrest⟩ := Steps.run_cons_some.mp hrun
      rw [List.cons_append, history_cons hm, history_cons hm, ih hrest, List.append_assoc]

theorem taskCapped_opens {taskId : JsString}
    (hcaps : ¬ CapMet (cappedAt taskCapped.maxTaskTokenBudget)
      ((s.taskTokensUsed.get taskId).getD 0)) :
    s.assertCapsNotMet taskCapped taskId = none := by
  unfold assertCapsNotMet
  dsimp only
  rw [filter_cap.mpr hcaps]
  rfl

/-- A task below its cap is run, and its tokens are counted. -/
theorem run_task {taskId : JsString}
    (hcaps : ¬ CapMet (cappedAt taskCapped.maxTaskTokenBudget)
      ((s.taskTokensUsed.get taskId).getD 0)) :
    ∃ s', Steps.run (step taskCapped) s (taskEvents (s.attemptSeq + 1) taskId) = some s' ∧
      s'.attemptSeq = s.attemptSeq + 1 ∧
      history taskCapped s (taskEvents (s.attemptSeq + 1) taskId) = [(taskId, paidUsage)] := by
  obtain ⟨m, hm, hseq, hatt, -⟩ := invoke_begins
    (p := ⟨taskId, js "writer", [], .finite (Decimal.ofInt 0)⟩) rfl (taskCapped_opens hcaps)
  have hsettle := settles_step taskCapped hatt rfl (.returned (.ofJson paidResult))
  refine ⟨_, Steps.run_cons_some.mpr ⟨m, hm, Steps.run_cons_some.mpr ⟨_, hsettle, rfl⟩⟩, ?_, ?_⟩
  · exact (Publishes.settled taskCapped m _ _ _).attemptSeq.trans hseq
  · unfold taskEvents
    rw [history_cons hm, history_cons hsettle, accounting_settles hatt, usage_paid]
    rfl

/-- The result of a first task is counted. -/
theorem tallies_exact_first :
    ∃ m s', Steps.run (step taskCapped) init [.invoke ⟨js "draft", js "writer", [],
        .finite (Decimal.ofInt 0)⟩] = some m ∧ Accounts m [] ∧
      step taskCapped m (.settles 1 (.returned (.ofJson paidResult))) = some s' ∧
      AccountsStep taskCapped [] m (.settles 1 (.returned (.ofJson paidResult))) s' := by
  have hcaps : ¬ CapMet (cappedAt taskCapped.maxTaskTokenBudget)
      ((init.taskTokensUsed.get (js "draft")).getD 0) := by
    rw [← filter_cap]
    decide +kernel
  obtain ⟨m, hm, -, hatt, -⟩ := invoke_begins (s := init)
    (p := ⟨js "draft", js "writer", [], .finite (Decimal.ofInt 0)⟩) rfl (taskCapped_opens hcaps)
  have hrun : Steps.run (step taskCapped) init [.invoke ⟨js "draft", js "writer", [],
      .finite (Decimal.ofInt 0)⟩] = some m := Steps.run_cons_some.mpr ⟨m, hm, rfl⟩
  have hsettle := settles_step taskCapped hatt rfl (.returned (.ofJson paidResult))
  obtain ⟨haccounts, hnext⟩ := tallies_exact (by simp [PublisherEvent.Plain]) hrun
  rw [history_cons hm] at haccounts hnext
  exact ⟨m, _, hrun, haccounts, hsettle, hnext _ _ plain_paid hsettle⟩

theorem tasksEvents_run {ids : List JsString} (hnodup : ids.Nodup)
    (hfresh : ∀ taskId ∈ ids, s.taskTokensUsed.get taskId = none) :
    ∃ s', Steps.run (step taskCapped) s (tasksEvents s.attemptSeq ids) = some s' ∧
      s'.attemptSeq = s.attemptSeq + ids.length ∧
      history taskCapped s (tasksEvents s.attemptSeq ids) = ids.map fun t => (t, paidUsage) := by
  induction ids generalizing s with
  | nil => exact ⟨s, rfl, rfl, rfl⟩
  | cons taskId rest ih =>
      rw [List.nodup_cons] at hnodup
      have hcaps : ¬ CapMet (cappedAt taskCapped.maxTaskTokenBudget)
          ((s.taskTokensUsed.get taskId).getD 0) := by
        rw [hfresh taskId (by simp)]
        rw [← filter_cap]
        decide +kernel
      obtain ⟨m, hm, hseq, hhist⟩ := run_task hcaps
      have htallies := tallies_run (plain_taskEvents _ _) hm
      rw [hhist] at htallies
      have hfresh' : ∀ t ∈ rest, m.taskTokensUsed.get t = none := by
        intro t ht
        show m.tallies.tasks.get t = none
        rw [htallies]
        refine OrderedMap.get_tally_of_none (hfresh t (by simp [ht])) ?_ paidUsage
        rintro rfl
        exact hnodup.1 ht
      obtain ⟨s', hs', hseq', hhist'⟩ := ih hnodup.2 hfresh'
      rw [hseq] at hs' hseq' hhist'
      refine ⟨s', Steps.run_append_some.mpr ⟨m, hm, hs'⟩, ?_, ?_⟩
      · rw [hseq', List.length_cons]
        omega
      · show history taskCapped s (taskEvents _ taskId ++ tasksEvents _ rest) = _
        rw [history_append hm, hhist, hhist']
        rfl

def draftTask : JsString := js "draft"

/-- Other tasks, as many as are tracked. -/
def otherTasks : List JsString :=
  (List.range maxTrackedTasks).map fun n => List.replicate (n + 1) (unit 'x')

theorem otherTasks_nodup : (draftTask :: otherTasks).Nodup := by
  rw [List.nodup_cons]
  constructor
  · intro h
    obtain ⟨n, -, hn⟩ := List.mem_map.mp h
    have hhead := congrArg List.head? hn
    rw [List.head?_replicate, if_neg (by simp)] at hhead
    exact absurd hhead (by decide)
  · refine List.Nodup.map ?_ List.nodup_range
    intro m n h
    have hlen := congrArg List.length h
    simpa using hlen

/-- A task is run, as many others as are tracked are run, and the task is run twice more. -/
theorem forgotten_usage {others : List JsString} (hdistinct : (draftTask :: others).Nodup)
    (hlen : others.length = maxTrackedTasks) :
    ∃ es s s' p, (∀ e ∈ es, e.Plain) ∧ Steps.run (step taskCapped) init es = some s ∧
      (OrderedMap.since p.taskId (history taskCapped init es)).toFinset.card < maxTrackedTasks ∧
      CapMet (cappedAt taskCapped.maxTaskTokenBudget)
        (OrderedMap.own p.taskId (history taskCapped init es)) ∧
      step taskCapped s (.invoke p) = some s' ∧ s'.handlers ≠ s.handlers := by
  obtain ⟨a, hrunA, hseqA, hhistA⟩ := tasksEvents_run (s := init) hdistinct fun _ _ => rfl
  have htasks : a.taskTokensUsed = OrderedMap.tallyAll maxTrackedTasks .empty
      ((draftTask :: others).map fun t => (t, paidUsage)) := by
    rw [(accounts_run (plain_tasksEvents _ _) hrunA).tasks]
    exact congrArg _ hhistA
  have hfst : (others.map fun t => (t, paidUsage)).map Prod.fst = others := by
    rw [List.map_map]
    exact List.map_id _
  have hnodup := List.nodup_cons.mp hdistinct
  -- The other tasks leave nothing of the first usage.
  have hforgot : a.taskTokensUsed.get draftTask = none := by
    rw [htasks]
    show ((OrderedMap.tally maxTrackedTasks .empty draftTask paidUsage).tallyAll maxTrackedTasks
      (others.map fun t => (t, paidUsage))).get draftTask = none
    refine OrderedMap.get_tallyAll_none ?_ ?_ ?_ ?_
    · exact OrderedMap.length_touch_le (Nat.zero_le _) _ _
    · rw [hfst]
      exact hnodup.2
    · rw [List.length_map, hlen]
    · rw [hfst]
      exact hnodup.1
  have hfree : ¬ CapMet (cappedAt taskCapped.maxTaskTokenBudget)
      ((a.taskTokensUsed.get draftTask).getD 0) := by
    rw [hforgot, ← filter_cap]
    decide +kernel
  obtain ⟨s, hrunS, -, hhistS⟩ := run_task hfree
  have hrun : Steps.run (step taskCapped) init (tasksEvents 0 (draftTask :: others)
      ++ taskEvents (a.attemptSeq + 1) draftTask) = some s :=
    Steps.run_append_some.mpr ⟨a, hrunA, hrunS⟩
  have hhist : history taskCapped init (tasksEvents 0 (draftTask :: others)
      ++ taskEvents (a.attemptSeq + 1) draftTask)
      = (draftTask :: others).map (fun t => (t, paidUsage)) ++ [(draftTask, paidUsage)] := by
    rw [show (0 : ℕ) = init.attemptSeq from rfl, history_append hrunA, hhistA, hhistS]
  have hfree' : ¬ CapMet (cappedAt taskCapped.maxTaskTokenBudget)
      ((s.taskTokensUsed.get draftTask).getD 0) := by
    have htallies := tallies_run (plain_taskEvents _ _) hrunS
    rw [hhistS] at htallies
    have htasksS : s.taskTokensUsed = a.taskTokensUsed.tally maxTrackedTasks draftTask paidUsage :=
      congrArg Tallies.tasks htallies
    have hget : s.taskTokensUsed.get draftTask = some (0 + paidUsage) := by
      rw [htasksS]
      refine (OrderedMap.get_touch_self (by decide) _ _ _).trans ?_
      rw [hforgot]
      rfl
    rw [hget, ← filter_cap]
    decide +kernel
  obtain ⟨s', hinvoke, -, -, hhandlers⟩ := invoke_begins
    (p := ⟨draftTask, js "writer", [], .finite (Decimal.ofInt 0)⟩) rfl (taskCapped_opens hfree')
  have hplain : ∀ e ∈ tasksEvents 0 (draftTask :: others)
      ++ taskEvents (a.attemptSeq + 1) draftTask, e.Plain := by
    intro e he
    rcases List.mem_append.mp he with he | he
    · exact plain_tasksEvents _ _ e he
    · exact plain_taskEvents _ _ e he
  refine ⟨_, s, s', _, hplain, hrun, ?_, ?_, hinvoke, ?_⟩
  · rw [hhist, OrderedMap.since_concat, if_pos rfl]
    decide
  · have hfirst : OrderedMap.own draftTask ((draftTask :: others).map fun t => (t, paidUsage))
        = paidUsage := by
      have hnone : (others.map fun t => (t, paidUsage)).filter (fun e => e.1 = draftTask)
          = [] := by
        rw [List.filter_eq_nil_iff]
        intro e he hk
        obtain ⟨t, ht, rfl⟩ := List.mem_map.mp he
        obtain rfl : t = draftTask := by simpa using hk
        exact hnodup.1 ht
      unfold OrderedMap.own
      rw [List.map_cons, List.filter_cons_of_pos (by simp), hnone]
      exact add_zero _
    rw [hhist, OrderedMap.own_concat, if_pos rfl, hfirst]
    exact ⟨Decimal.ofInt 100, by decide +kernel, by decide +kernel⟩
  · rw [hhandlers]
    simp

/-- **A task that used 120 of its 100 tokens is run again**: its first 60 were forgotten
before the last 60 were counted. -/
theorem forgotten_usage_runs :
    ∃ es s s' p, (∀ e ∈ es, e.Plain) ∧ Steps.run (step taskCapped) init es = some s ∧
      (OrderedMap.since p.taskId (history taskCapped init es)).toFinset.card < maxTrackedTasks ∧
      CapMet (cappedAt taskCapped.maxTaskTokenBudget)
        (OrderedMap.own p.taskId (history taskCapped init es)) ∧
      step taskCapped s (.invoke p) = some s' ∧ s'.handlers ≠ s.handlers :=
  forgotten_usage otherTasks_nodup (by simp [otherTasks])

end AgentStatePublisher

end Kaiban
