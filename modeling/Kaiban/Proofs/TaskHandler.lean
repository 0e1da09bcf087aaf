/-
What a call of the task handler comes to.

Its team is started once at most, and the signal and the team race for the outcome.  The first
to settle has it, the team is told to stop just when the signal came before the handler went on,
and no listener is left behind.  Nothing but the token provider can keep a call that was aborted.

A workflow that fails is reported with what its logs say.  The search for it is bounded, so a
text is found exactly when there is one within four members of the error, and nothing deeper
says anything.
-/
import Kaiban.TaskHandler

open JsString

namespace Kaiban

/-! ### The search for a text -/

/-- What is said at the end of a path of members. -/
def textAt (own : ℕ → List (JsString × Json) → Option JsString) :
    ℕ → Json → List JsString → Option JsString
  | _, .str s, [] => toNonEmptyString (some (.str s))
  | depth, .obj ms, [] => own depth ms
  | depth, .obj ms, key :: path =>
      (Json.get ms key).bind fun v => textAt own (depth + 1) v path
  | _, _, _ => none

/-- A path the search may take with so many steps left. -/
structure WithinReach (left : ℕ) (path : List JsString) : Prop where
  short : path.length < left
  nested : ∀ key ∈ path, key ∈ nestedKeys

variable {own : ℕ → List (JsString × Json) → Option JsString}

theorem WithinReach.cons {left : ℕ} {key : JsString} {path : List JsString}
    (hkey : key ∈ nestedKeys) (h : WithinReach left path) :
    WithinReach (left + 1) (key :: path) := by
  refine ⟨Nat.succ_lt_succ h.short, fun k hk => ?_⟩
  rcases List.mem_cons.mp hk with rfl | hk
  · exact hkey
  · exact h.nested k hk

theorem WithinReach.uncons {left : ℕ} {key : JsString} {path : List JsString}
    (h : WithinReach (left + 1) (key :: path)) : key ∈ nestedKeys ∧ WithinReach left path :=
  ⟨h.nested key List.mem_cons_self, Nat.lt_of_succ_lt_succ h.short,
    fun k hk => h.nested k (List.mem_cons_of_mem key hk)⟩

theorem not_withinReach_zero {path : List JsString} (h : WithinReach 0 path) : False :=
  Nat.not_lt_zero _ h.short

/-- **Nothing is found exactly when nothing within reach says anything.** -/
theorem extractMessage_eq_none :
    ∀ (left depth : ℕ) (v : Json), extractMessage own left depth v = none ↔
      ∀ path, WithinReach left path → textAt own depth v path = none := by
  intro left
  induction left with
  | zero =>
      intro depth v
      exact iff_of_true rfl fun path h => absurd (not_withinReach_zero h) id
  | succ left ih =>
      intro depth v
      have hnil : WithinReach (left + 1) [] := ⟨Nat.succ_pos left, by simp⟩
      cases v with
      | obj ms =>
          rw [extractMessage, Option.or_eq_none_iff, List.findSome?_eq_none_iff]
          constructor
          · rintro ⟨hnested, hown⟩ path hpath
            cases path with
            | nil => exact hown
            | cons key path =>
                obtain ⟨hkey, hrest⟩ := hpath.uncons
                have hnone := hnested key hkey
                rw [textAt]
                cases hget : Json.get ms key with
                | none => rfl
                | some v =>
                    rw [hget, Option.bind_some] at hnone
                    exact (ih (depth + 1) v).mp hnone path hrest
          · intro hall
            refine ⟨fun key hkey => ?_, hall [] hnil⟩
            cases hget : Json.get ms key with
            | none => rfl
            | some v =>
                rw [Option.bind_some, ih]
                intro path hpath
                have hnone := hall (key :: path) (hpath.cons hkey)
                rw [textAt, hget] at hnone
                exact hnone
      | str s =>
          refine ⟨fun hnone path _ => ?_, fun hall => hall [] hnil⟩
          cases path with
          | nil => exact hnone
          | cons key path => rfl
      | null => exact iff_of_true rfl fun path _ => by cases path <;> rfl
      | bool b => exact iff_of_true rfl fun path _ => by cases path <;> rfl
      | num n => exact iff_of_true rfl fun path _ => by cases path <;> rfl
      | arr vs => exact iff_of_true rfl fun path _ => by cases path <;> rfl

/-- **What is found is said somewhere within reach, and nothing that is nested there says
anything.** -/
theorem extractMessage_eq_some :
    ∀ {left depth : ℕ} {v : Json} {t : JsString}, extractMessage own left depth v = some t →
      ∃ path, WithinReach left path ∧ textAt own depth v path = some t ∧
        ∀ more, more ≠ [] → WithinReach left (path ++ more) →
          textAt own depth v (path ++ more) = none := by
  intro left
  induction left with
  | zero => intro depth v t h; exact absurd h (by simp [extractMessage])
  | succ left ih =>
      intro depth v t h
      have hnil : WithinReach (left + 1) [] := ⟨Nat.succ_pos left, by simp⟩
      cases v with
      | obj ms =>
          rw [extractMessage] at h
          rcases Option.or_eq_some_iff.mp h with hnested | ⟨hnone, hown⟩
          · obtain ⟨key, hkey, hfound⟩ := List.exists_of_findSome?_eq_some hnested
            obtain ⟨v, hget, hv⟩ := Option.bind_eq_some_iff.mp hfound
            obtain ⟨path, hpath, htext, hmore⟩ := ih hv
            have hstep (rest : List JsString) : textAt own depth (.obj ms) (key :: rest) =
                textAt own (depth + 1) v rest := by
              rw [textAt, hget, Option.bind_some]
            refine ⟨key :: path, hpath.cons hkey, (hstep path).trans htext, ?_⟩
            intro more hsome hreach
            rw [List.cons_append] at hreach ⊢
            rw [hstep]
            exact hmore more hsome hreach.uncons.2
          · refine ⟨[], hnil, hown, fun more hsome hreach => ?_⟩
            rw [List.nil_append] at hreach ⊢
            cases more with
            | nil => exact absurd rfl hsome
            | cons key path =>
                obtain ⟨hkey, hrest⟩ := hreach.uncons
                have hkeyNone := List.findSome?_eq_none_iff.mp hnone key hkey
                rw [textAt]
                cases hget : Json.get ms key with
                | none => rfl
                | some v =>
                    rw [hget, Option.bind_some, extractMessage_eq_none] at hkeyNone
                    exact hkeyNone path hrest
      | str s =>
          refine ⟨[], hnil, h, fun more hsome _ => ?_⟩
          cases more with
          | nil => exact absurd rfl hsome
          | cons key path => rfl
      | null => exact absurd h (by simp [extractMessage])
      | bool b => exact absurd h (by simp [extractMessage])
      | num n => exact absurd h (by simp [extractMessage])
      | arr vs => exact absurd h (by simp [extractMessage])

/-! ### Why a workflow failed -/

/-- Nothing within reach says anything. -/
def SaysNothing (own : ℕ → List (JsString × Json) → Option JsString) (v : Option Json) : Prop :=
  ∀ w ∈ v, ∀ path, WithinReach 5 path → textAt own 0 w path = none

theorem bind_extractMessage_eq_none {v : Option Json} :
    v.bind (extractMessage own 5 0) = none ↔ SaysNothing own v := by
  cases v with
  | none => exact iff_of_true rfl fun w hw => absurd hw (by simp)
  | some w =>
      rw [Option.bind_some, extractMessage_eq_none]
      exact ⟨fun h x hx => Option.some.inj hx ▸ h, fun h => h w rfl⟩

theorem rootMessage_of_nested {depth : ℕ} {ms : List (JsString × Json)}
    (h : nestedMessage depth ms = none) : rootMessage depth ms = none := by
  unfold nestedMessage at h
  rw [Option.or_eq_none_iff, Option.or_eq_none_iff] at h
  unfold rootMessage
  split
  · exact h.1.1
  · rfl

theorem textAt_root_of_nested :
    ∀ {path : List JsString} {depth : ℕ} {v : Json}, textAt nestedMessage depth v path = none →
      textAt rootMessage depth v path = none := by
  intro path
  induction path with
  | nil =>
      intro depth v h
      cases v with
      | obj ms => exact rootMessage_of_nested h
      | str s => exact h
      | null | bool _ | num _ | arr _ => rfl
  | cons key path ih =>
      intro depth v h
      cases v with
      | obj ms =>
          rw [textAt] at h ⊢
          cases hget : Json.get ms key with
          | none => rfl
          | some v =>
              rw [hget] at h
              exact ih h
      | str _ | null | bool _ | num _ | arr _ => rfl

theorem SaysNothing.root {v : Option Json} (h : SaysNothing nestedMessage v) :
    SaysNothing rootMessage v :=
  fun w hw path hpath => textAt_root_of_nested (h w hw path hpath)

theorem SaysNothing.text {v : Option Json} (h : SaysNothing own v) :
    toNonEmptyString v = none := by
  cases v with
  | none => rfl
  | some w =>
      cases w with
      | str s => exact h _ rfl [] ⟨by decide, by simp⟩
      | null | bool _ | num _ | arr _ | obj _ => rfl

theorem fallbackMessage_eq_none {log : WorkflowLog} :
    fallbackMessage log = none ↔
      SaysNothing nestedMessage log.error ∧ toNonEmptyString log.logDescription = none := by
  unfold fallbackMessage extractNestedErrorMessage
  rw [Option.or_eq_none_iff, bind_extractMessage_eq_none, Option.map_eq_none_iff]

/-- **A workflow fails for an unknown reason exactly when nothing within reach of its logs and its
result says anything, and the last log of a status whose error names its cause decides.** -/
theorem failure_reason :
    ∀ (toUpperCase : JsString → JsString) (workflowLogs : List WorkflowLog) (result : Option Json),
      (extractWorkflowFailureReason toUpperCase workflowLogs result = none ↔
        (∀ log ∈ workflowLogs, SaysNothing nestedMessage log.error ∧
          toNonEmptyString log.logDescription = none) ∧ SaysNothing nestedMessage result) ∧
      ∀ before log after, workflowLogs = before ++ log :: after →
        isRootCauseLog toUpperCase log = true → ¬ SaysNothing rootMessage log.error →
        (∀ x ∈ after, isRootCauseLog toUpperCase x = true → SaysNothing rootMessage x.error) →
        ∃ v path t, log.error = some v ∧ WithinReach 5 path ∧
          textAt rootMessage 0 v path = some t ∧
          (∀ more, more ≠ [] → WithinReach 5 (path ++ more) →
            textAt rootMessage 0 v (path ++ more) = none) ∧
          extractWorkflowFailureReason toUpperCase workflowLogs result = some t := by
  intro toUpperCase workflowLogs result
  refine ⟨?_, ?_⟩
  · unfold extractWorkflowFailureReason findWorkflowRootCauseMessage findWorkflowFallbackMessage
      extractNestedErrorMessage extractRootCauseMessage
    rw [Option.or_eq_none_iff, Option.or_eq_none_iff, Option.or_eq_none_iff,
      List.findSome?_eq_none_iff, List.findSome?_eq_none_iff, bind_extractMessage_eq_none]
    constructor
    · rintro ⟨⟨⟨-, hlogs⟩, hresult⟩, -⟩
      refine ⟨fun log hlog => ?_, hresult⟩
      exact fallbackMessage_eq_none.mp (hlogs log (List.mem_reverse.mpr hlog))
    · rintro ⟨hlogs, hresult⟩
      refine ⟨⟨⟨fun log hlog => ?_, fun log hlog => ?_⟩, hresult⟩, hresult.text⟩
      · split
        · exact bind_extractMessage_eq_none.mpr (hlogs log (List.mem_reverse.mp hlog)).1.root
        · rfl
      · exact fallbackMessage_eq_none.mpr (hlogs log (List.mem_reverse.mp hlog))
  · intro before log after hlogs hroot hsays hafter
    have hfound : extractRootCauseMessage log.error ≠ none :=
      fun hnone => hsays (bind_extractMessage_eq_none.mp hnone)
    obtain ⟨t, ht⟩ := Option.ne_none_iff_exists'.mp hfound
    obtain ⟨v, hv, hmessage⟩ := Option.bind_eq_some_iff.mp ht
    obtain ⟨path, hpath, htext, hmore⟩ := extractMessage_eq_some hmessage
    refine ⟨v, path, t, hv, hpath, htext, hmore, ?_⟩
    have hsilent : after.reverse.findSome? (fun x =>
        if isRootCauseLog toUpperCase x then extractRootCauseMessage x.error else none) = none := by
      rw [List.findSome?_eq_none_iff]
      intro x hx
      split
      · next hx' =>
          exact bind_extractMessage_eq_none.mpr (hafter x (List.mem_reverse.mp hx) hx')
      · rfl
    have hcause : findWorkflowRootCauseMessage toUpperCase workflowLogs = some t := by
      unfold findWorkflowRootCauseMessage
      rw [hlogs, List.reverse_append, List.reverse_cons, List.append_assoc, List.findSome?_append,
        hsilent, Option.none_or, List.singleton_append, List.findSome?_cons, if_pos hroot, ht]
    unfold extractWorkflowFailureReason
    rw [hcause]
    rfl

/-- The log of an agent whose error names its cause. -/
def causeLog : WorkflowLog where
  logType := some (js "AgentStatusUpdate")
  agentStatus := none
  logDescription := none
  error := some (.obj [(js "cause", .obj [(js "message", .str (js "quota exceeded"))])])

/-- The log of the workflow, which says nothing about the cause. -/
def laterLog : WorkflowLog where
  logType := some (js "AgentStatusUpdate")
  agentStatus := none
  logDescription := some (.str (js "failed"))
  error := none

theorem failure_reason_cause :
    ∃ v path t, causeLog.error = some v ∧ WithinReach 5 path ∧
      textAt rootMessage 0 v path = some t ∧
      extractWorkflowFailureReason id [causeLog, laterLog] none = some t := by
  have hsays : ¬ SaysNothing rootMessage causeLog.error := by
    intro h
    have hnone := h _ rfl [js "cause"] ⟨by decide, by decide⟩
    exact absurd hnone (by decide)
  have hlater : ∀ x ∈ [laterLog], isRootCauseLog id x = true → SaysNothing rootMessage x.error := by
    intro x hx _ w hw
    rw [List.mem_singleton.mp hx] at hw
    exact absurd hw (by simp [laterLog])
  obtain ⟨v, path, t, hv, hpath, htext, -, hreason⟩ :=
    (failure_reason id [causeLog, laterLog] none).2 [] causeLog [laterLog] rfl (by decide) hsays
      hlater
  exact ⟨v, path, t, hv, hpath, htext, hreason⟩

/-! ### The race -/

namespace HandlerRun

variable {c : TaskHandlerCall} {texts : HandlerTexts} {s s' : HandlerRun}

/-- Where a call is when its signal aborts. -/
inductive AbortMoment where
  | unstarted
  | running
  /-- The team has settled and the handler has yet to go on. -/
  | settled
  | ended
  deriving DecidableEq

def moment (s : HandlerRun) : AbortMoment :=
  match s.phase with
  | .fetching _ _ _ | .fetched _ => .unstarted
  | .running => .running
  | .raced _ => .settled
  | .ended _ => .ended

/-- When the signal aborts, seen from each event on. -/
def abortMoment (c : TaskHandlerCall) (texts : HandlerTexts) :
    HandlerRun → List HandlerEvent → Option AbortMoment
  | _, [] => none
  | s, .abort _ :: _ => some s.moment
  | s, e :: es => (step c texts s e).bind fun s' => abortMoment c texts s' es

/-- What a call has come to, by when its signal was aborted. -/
inductive Course (c : TaskHandlerCall) (texts : HandlerTexts) :
    Option AbortMoment → HandlerRun → Prop
  | refused (reason : JsString) (m : Option AbortMoment) (h : m = none ∨ m = some .unstarted) :
      Course c texts m ⟨.ended (.error (.aborted reason)), some reason, false, [], none, 0⟩
  | fetching (env : TokenEnv) (key : JsString) (rest : List JsString) (m : Option AbortMoment)
      (aborted : Option JsString)
      (h : m = none ∧ aborted = none ∨ m = some .unstarted ∧ aborted.isSome) :
      Course c texts m ⟨.fetching env key rest, aborted, false, [], none, 0⟩
  | fetched (env : TokenEnv) (m : Option AbortMoment) (aborted : Option JsString)
      (h : m = none ∧ aborted = none ∨ m = some .unstarted ∧ aborted.isSome) :
      Course c texts m ⟨.fetched env, aborted, false, [], none, 0⟩
  | failed (message : JsString) (m : Option AbortMoment) (aborted : Option JsString)
      (h : m ≠ some .running ∧ m ≠ some .settled) (hm : aborted = none → m = none) :
      Course c texts m ⟨.ended (.error (.failed message)), aborted, false, [], none, 0⟩
  | running (team : BuiltTeam) :
      Course c texts none ⟨.running, none, c.signal, [team], none, 0⟩
  | won (team : BuiltTeam) (r : Except JsString WorkflowResult) :
      Course c texts none ⟨.raced (r.mapError .failed), none, c.signal, [team], some r, 0⟩
  | wonStopped (team : BuiltTeam) (r : Except JsString WorkflowResult) (reason : JsString) :
      Course c texts (some .settled)
        ⟨.raced (r.mapError .failed), some reason, false, [team], some r, 1⟩
  | lost (team : BuiltTeam) (reason : JsString)
      (settled : Option (Except JsString WorkflowResult)) :
      Course c texts (some .running)
        ⟨.raced (.error (.aborted reason)), some reason, false, [team], settled, 1⟩
  | endedWon (team : BuiltTeam) (r : Except JsString WorkflowResult)
      (workflowLogs : List WorkflowLog) (m : Option AbortMoment) (aborted : Option JsString)
      (stops : ℕ) (h : m = some .settled ∧ stops = 1 ∨
        (m = none ∨ m = some .ended) ∧ stops = 0) (hm : aborted = none → m = none) :
      Course c texts m ⟨.ended (c.finish texts workflowLogs (r.mapError .failed)), aborted, false,
        [team], some r, stops⟩
  | endedLost (team : BuiltTeam) (reason : JsString)
      (settled : Option (Except JsString WorkflowResult)) :
      Course c texts (some .running)
        ⟨.ended (.error (.aborted reason)), some reason, false, [team], settled, 1⟩

theorem Course.not_aborted {m : Option AbortMoment} (h : Course c texts m s)
    (hnone : s.aborted = none) : m = none := by
  cases h with
  | refused reason m h => exact absurd hnone (by simp)
  | fetching env key rest m aborted h =>
      rcases h with ⟨h, -⟩ | ⟨-, h⟩
      · exact h
      · exact absurd (hnone ▸ h : (none : Option JsString).isSome = true) (by simp)
  | fetched env m aborted h =>
      rcases h with ⟨h, -⟩ | ⟨-, h⟩
      · exact h
      · exact absurd (hnone ▸ h : (none : Option JsString).isSome = true) (by simp)
  | failed message m aborted h hm => exact hm hnone
  | running team => rfl
  | won team r => rfl
  | wonStopped team r reason => exact absurd hnone (by simp)
  | lost team reason settled => exact absurd hnone (by simp)
  | endedWon team r workflowLogs m aborted stops h hm => exact hm hnone
  | endedLost team reason settled => exact absurd hnone (by simp)

/-- When the token of a key has come, the call is still on its course. -/
theorem course_token {m : Option AbortMoment} {answer : Except JsString (Option JsString)}
    (h : Course c texts m s) (hstep : step c texts s (.token answer) = some s') :
    Course c texts m s' := by
  cases h with
  | fetching env key rest m aborted h =>
      obtain rfl := Option.some.inj hstep
      cases answer with
      | error message =>
          refine .failed message m aborted ?_ ?_
          · rcases h with ⟨rfl, -⟩ | ⟨rfl, -⟩ <;> simp
          · rintro rfl
            rcases h with ⟨h, -⟩ | ⟨-, h⟩
            · exact h
            · exact absurd h (by simp)
      | ok val =>
          cases rest with
          | nil => exact .fetched _ m aborted h
          | cons key rest => exact .fetching _ key rest m aborted h
  | refused | fetched | failed | running | won | wonStopped | lost | endedWon | endedLost =>
      exact absurd hstep (by simp [step])

theorem course_continues {m : Option AbortMoment} {workflowLogs : List WorkflowLog}
    (h : Course c texts m s) (hstep : step c texts s (.continues workflowLogs) = some s') :
    Course c texts m s' := by
  cases h with
  | fetched env m aborted h =>
      obtain rfl := Option.some.inj hstep
      rcases h with ⟨rfl, rfl⟩ | ⟨rfl, h⟩
      · exact .running _
      · obtain ⟨reason, rfl⟩ := Option.isSome_iff_exists.mp h
        exact .refused reason _ (.inr rfl)
  | won team r =>
      obtain rfl := Option.some.inj hstep
      exact .endedWon team r workflowLogs none none 0 (.inr ⟨.inl rfl, rfl⟩) fun _ => rfl
  | wonStopped team r reason =>
      obtain rfl := Option.some.inj hstep
      exact .endedWon team r workflowLogs _ _ 1 (.inl ⟨rfl, rfl⟩) fun h => absurd h (by simp)
  | lost team reason settled =>
      obtain rfl := Option.some.inj hstep
      exact .endedLost team reason settled
  | refused | fetching | failed | running | endedWon | endedLost =>
      exact absurd hstep (by simp [step])

theorem course_settles {m : Option AbortMoment} {result : Except JsString WorkflowResult}
    (h : Course c texts m s) (hstep : step c texts s (.settles result) = some s') :
    Course c texts m s' := by
  rw [step] at hstep
  split at hstep
  · next hopen =>
      obtain rfl := Option.some.inj hstep
      cases h with
      | running team => exact .won team result
      | lost team reason settled => exact .lost team reason (some result)
      | endedLost team reason settled => exact .endedLost team reason (some result)
      | refused | fetching | fetched | failed => exact absurd rfl hopen.1
      | won | wonStopped | endedWon => exact absurd hopen.2 (by simp)
  · exact absurd hstep (by simp)

theorem course_abort {m : Option AbortMoment} {reason : JsString}
    (h : Course c texts m s) (hstep : step c texts s (.abort reason) = some s') :
    Course c texts (some s.moment) s' := by
  rw [step] at hstep
  split at hstep
  · next hopen =>
      obtain ⟨hsignal, hnone⟩ := hopen
      obtain rfl := Option.some.inj hstep
      cases h with
      | fetching env key rest m aborted h =>
          exact .fetching env key rest _ (some reason) (.inr ⟨rfl, rfl⟩)
      | fetched env m aborted h => exact .fetched env _ (some reason) (.inr ⟨rfl, rfl⟩)
      | failed message m aborted h hm =>
          exact .failed message _ (some reason) ⟨by simp [moment], by simp [moment]⟩
            fun h => absurd h (by simp)
      | running team =>
          unfold abort
          rw [hsignal]
          exact .lost team reason none
      | won team r =>
          unfold abort
          rw [hsignal]
          exact .wonStopped team r reason
      | endedWon team r workflowLogs m aborted stops h hm =>
          obtain rfl : m = none := hm (Option.isNone_iff_eq_none.mp hnone)
          have hstops : stops = 0 := by
            rcases h with ⟨h, -⟩ | ⟨-, h⟩
            · exact absurd h (by simp)
            · exact h
          exact .endedWon team r workflowLogs _ (some reason) stops (.inr ⟨.inr rfl, hstops⟩)
            fun h => absurd h (by simp)
      | refused | wonStopped | lost | endedLost => exact absurd hnone (by simp)
  · exact absurd hstep (by simp)

/-- **A call stays on its course.** -/
theorem course_run :
    ∀ {es : List HandlerEvent} {m : Option AbortMoment} {s t : HandlerRun}, Course c texts m s →
      Steps.run (step c texts) s es = some t →
      Course c texts (m.or (abortMoment c texts s es)) t := by
  intro es
  induction es with
  | nil =>
      intro m s t h hrun
      obtain rfl : s = t := by simpa using hrun
      rw [abortMoment, Option.or_none]
      exact h
  | cons e es ih =>
      intro m s t h hrun
      obtain ⟨s', hstep, hrest⟩ := Steps.run_cons_some.mp hrun
      cases e with
      | token answer =>
          rw [abortMoment, hstep]
          · exact ih (course_token h hstep) hrest
          · simp
      | continues workflowLogs =>
          rw [abortMoment, hstep]
          · exact ih (course_continues h hstep) hrest
          · simp
      | settles result =>
          rw [abortMoment, hstep]
          · exact ih (course_settles h hstep) hrest
          · simp
      | abort reason =>
          have hnone : s.aborted = none := by
            rw [step] at hstep
            split at hstep
            · next hopen => exact Option.isNone_iff_eq_none.mp hopen.2
            · exact absurd hstep (by simp)
          rw [abortMoment, h.not_aborted hnone]
          exact ih (course_abort h hstep) hrest

theorem call_course (first : Option JsString) : Course c texts none (call c first) := by
  unfold call
  split
  · next reason _ => exact .refused reason none (.inl rfl)
  · dsimp only
    split
    · exact .fetching _ _ _ none none (.inl ⟨rfl, rfl⟩)
    · exact .fetched _ none none (.inl ⟨rfl, rfl⟩)

/-! ### What a call comes to -/

/-- What a call has come to by when its signal was aborted. -/
structure Raced (c : TaskHandlerCall) (texts : HandlerTexts) (m : Option AbortMoment)
    (s : HandlerRun) : Prop where
  /-- One team is started at most, and none once the signal is aborted. -/
  once : s.teams.length ≤ 1
  unstarted : m = some .unstarted → s.teams = []
  /-- The team is told to stop once, just when the signal is aborted before the handler goes
  on. -/
  stops : s.stops = if m = some .running ∨ m = some .settled then 1 else 0
  /-- No listener stays. -/
  released : ∀ o, s.phase = .ended o → s.listening = false
  /-- Without a team, the call ends with the signal's reason or the provider's failure. -/
  unraced : ∀ o, s.phase = .ended o → s.teams = [] →
    (∃ reason, s.aborted = some reason ∧ o = .error (.aborted reason)) ∨
      ∃ message, o = .error (.failed message)
  /-- The signal wins when it comes before the team has settled. -/
  lost : ∀ o, s.phase = .ended o → m = some .running →
    ∃ reason, s.aborted = some reason ∧ o = .error (.aborted reason)
  /-- Otherwise the call comes to what its team has settled with. -/
  won : ∀ o, s.phase = .ended o → s.teams ≠ [] → m ≠ some .running →
    ∃ r workflowLogs, s.settled = some r ∧
      o = c.finish texts workflowLogs (r.mapError .failed)

theorem Course.raced {m : Option AbortMoment} (h : Course c texts m s) : Raced c texts m s := by
  cases h with
  | refused reason m h =>
      have hm : ¬ (m = some .running ∨ m = some .settled) := by rcases h with rfl | rfl <;> simp
      refine ⟨by simp, fun _ => rfl, by rw [if_neg hm], fun _ _ => rfl, fun o ho _ => ?_,
        fun o ho hrunning => absurd (.inl hrunning) hm, fun _ _ hteam => absurd rfl hteam⟩
      exact .inl ⟨reason, rfl, (HandlerPhase.ended.inj ho).symm⟩
  | fetching env key rest m aborted h =>
      have hm : ¬ (m = some .running ∨ m = some .settled) := by
        rcases h with ⟨rfl, -⟩ | ⟨rfl, -⟩ <;> simp
      exact ⟨by simp, fun _ => rfl, by rw [if_neg hm], fun _ _ => rfl, by simp, by simp, by simp⟩
  | fetched env m aborted h =>
      have hm : ¬ (m = some .running ∨ m = some .settled) := by
        rcases h with ⟨rfl, -⟩ | ⟨rfl, -⟩ <;> simp
      exact ⟨by simp, fun _ => rfl, by rw [if_neg hm], fun _ _ => rfl, by simp, by simp, by simp⟩
  | failed message m aborted h hm =>
      have hm : ¬ (m = some .running ∨ m = some .settled) := not_or.mpr h
      refine ⟨by simp, fun _ => rfl, by rw [if_neg hm], fun _ _ => rfl, fun o ho _ => ?_,
        fun o ho hrunning => absurd (.inl hrunning) hm, fun _ _ hteam => absurd rfl hteam⟩
      exact .inr ⟨message, (HandlerPhase.ended.inj ho).symm⟩
  | running team => exact ⟨by simp, by simp, by simp, by simp, by simp, by simp, by simp⟩
  | won team r => exact ⟨by simp, by simp, by simp, by simp, by simp, by simp, by simp⟩
  | wonStopped team r reason =>
      exact ⟨by simp, by simp, by simp, by simp, by simp, by simp, by simp⟩
  | lost team reason settled =>
      exact ⟨by simp, by simp, by simp, by simp, by simp, by simp, by simp⟩
  | endedWon team r workflowLogs m aborted stops h hm =>
      refine ⟨by simp, ?_, ?_, fun _ _ => rfl, by simp, ?_, fun o ho _ _ => ?_⟩
      · rcases h with ⟨rfl, -⟩ | ⟨rfl | rfl, -⟩ <;> simp
      · rcases h with ⟨rfl, rfl⟩ | ⟨rfl | rfl, rfl⟩ <;> simp
      · rcases h with ⟨rfl, -⟩ | ⟨rfl | rfl, -⟩ <;> simp
      · exact ⟨r, workflowLogs, rfl, (HandlerPhase.ended.inj ho).symm⟩
  | endedLost team reason settled =>
      refine ⟨by simp, by simp, by simp, fun _ _ => rfl, by simp, fun o ho _ => ?_, by simp⟩
      exact ⟨reason, rfl, (HandlerPhase.ended.inj ho).symm⟩

/-- An answer of the token provider, or a turn of the event loop. -/
def isOwn : HandlerEvent → Bool
  | .token _ | .continues _ => true
  | .settles _ | .abort _ => false

/-- A call that ends by itself from here, with the answers of the provider. -/
def EndsAlone (c : TaskHandlerCall) (texts : HandlerTexts) (s : HandlerRun) : Prop :=
  ∃ es t o, (∀ e ∈ es, isOwn e = true) ∧ Steps.run (step c texts) s es = some t ∧
    t.phase = .ended o

theorem EndsAlone.of_ended {o : Except TaskHandlerError KaibanHandlerResult}
    (h : s.phase = .ended o) : EndsAlone c texts s :=
  ⟨[], s, o, by simp, rfl, h⟩

theorem EndsAlone.before {e : HandlerEvent} (hown : isOwn e = true)
    (hstep : step c texts s e = some s') (h : EndsAlone c texts s') : EndsAlone c texts s := by
  obtain ⟨es, t, o, hes, hrun, ho⟩ := h
  refine ⟨e :: es, t, o, fun x hx => ?_, Steps.run_cons_some.mpr ⟨s', hstep, hrun⟩, ho⟩
  rcases List.mem_cons.mp hx with rfl | hx
  · exact hown
  · exact hes x hx

/-- A call that was aborted before its team is started. -/
theorem fetching_ends (reason : JsString) :
    ∀ (rest : List JsString) (env : TokenEnv) (key : JsString),
      EndsAlone c texts ⟨.fetching env key rest, some reason, false, [], none, 0⟩ := by
  intro rest
  induction rest with
  | nil =>
      intro env key
      have hfetched : EndsAlone c texts ⟨.fetched env, some reason, false, [], none, 0⟩ :=
        .before (e := .continues []) rfl rfl (.of_ended rfl)
      exact .before (e := .token (.ok none)) rfl rfl hfetched
  | cons next rest ih =>
      intro env key
      exact .before (e := .token (.ok none)) rfl rfl (ih env next)

theorem Course.ends {m : Option AbortMoment} (h : Course c texts m s)
    (hready : s.aborted.isSome = true ∨ s.settled.isSome = true) : EndsAlone c texts s := by
  cases h with
  | refused | failed | endedWon | endedLost => exact .of_ended rfl
  | fetching env key rest m aborted h =>
      obtain ⟨reason, rfl⟩ := Option.isSome_iff_exists.mp (hready.resolve_right (by simp))
      exact fetching_ends reason rest env key
  | fetched env m aborted h =>
      obtain ⟨reason, rfl⟩ := Option.isSome_iff_exists.mp (hready.resolve_right (by simp))
      exact .before (e := .continues []) rfl rfl (.of_ended rfl)
  | running team => exact absurd hready (by simp)
  | won | wonStopped | lost => exact .before (e := .continues []) rfl rfl (.of_ended rfl)

/-- **In every order of events, the signal and the team race for the outcome of a call.**  A call
whose signal was aborted before starts nothing; one team is started at most; what settles first
is what the call comes to, and once something has, nothing but the token provider can keep it. -/
theorem handler_raced (c : TaskHandlerCall) (texts : HandlerTexts) (first : Option JsString)
    (es : List HandlerEvent) (s : HandlerRun)
    (hrun : Steps.run (step c texts) (call c first) es = some s) :
    Raced c texts (abortMoment c texts (call c first) es) s ∧
      (∀ reason, c.signal = true → first = some reason → s.teams = [] ∧
        s.phase = .ended (.error (.aborted reason))) ∧
      (s.aborted.isSome = true ∨ s.settled.isSome = true → EndsAlone c texts s) := by
  have hcourse := course_run (call_course first) hrun
  rw [Option.none_or] at hcourse
  refine ⟨hcourse.raced, fun reason hsignal hfirst => ?_, hcourse.ends⟩
  subst hfirst
  have hcall : call c (some reason) =
      ⟨.ended (.error (.aborted reason)), some reason, false, [], none, 0⟩ := by
    unfold call
    rw [if_pos hsignal]
  rw [hcall] at hrun
  cases es with
  | nil =>
      obtain rfl := Option.some.inj hrun
      exact ⟨rfl, rfl⟩
  | cons e es =>
      obtain ⟨s', hstep, -⟩ := Steps.run_cons_some.mp hrun
      cases e <;> exact absurd hstep (by simp [step])

/-- A call without a provider. -/
def plainCall : TaskHandlerCall := ⟨js "t-1", none, false, fun _ => none, true⟩

/-- The team settles and the signal is aborted before the handler goes on. -/
def lateAbort : List HandlerEvent :=
  [.continues [], .settles (.ok ⟨some (js "FINISHED"), some (.str (js "done")), none⟩),
    .abort (js "timeout"), .continues []]

theorem handler_raced_late :
    ∃ s, Steps.run (step plainCall ⟨.basic, id⟩) (call plainCall none) lateAbort = some s ∧
      s.stops = 1 ∧ s.teams.length = 1 ∧
      Raced plainCall ⟨.basic, id⟩
        (abortMoment plainCall ⟨.basic, id⟩ (call plainCall none) lateAbort) s := by
  refine ⟨_, rfl, rfl, rfl, ?_⟩
  exact (handler_raced plainCall ⟨.basic, id⟩ none lateAbort _ rfl).1

end HandlerRun

end Kaiban
