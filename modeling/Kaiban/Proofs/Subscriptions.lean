/-
The subscriptions of the router, and what a message of one settles.

The flags of the two queues are set by the first wait that registers, and cleared only when a
`subscribe` is rejected.
-/
import Kaiban.KafkaDriver
import Kaiban.Lib.Steps

open JsString

namespace Kaiban

namespace Router

variable {s r : Router}

theorem subscribed_clearPending (s : Router) (k : JsString) :
    (s.clearPending k).subscribed = s.subscribed := by
  funext q
  cases q <;> rfl

theorem subscribed_settle (s : Router) (w : ℕ) (r : Settlement) :
    (s.settle w r).subscribed = s.subscribed := by
  funext q
  cases q <;> rfl

theorem subscribed_rejectAll (err : WaitError) (entries : List (JsString × ℕ)) :
    (rejectAll err s entries).subscribed = s.subscribed := by
  induction entries generalizing s with
  | nil => rfl
  | cons e rest ih =>
      show (rejectAll err _ rest).subscribed = _
      rw [ih, subscribed_settle, subscribed_clearPending]

theorem subscribed_giveUp (s : Router) (w : ℕ) (err : Wait → WaitError) :
    (s.giveUp w err).subscribed = s.subscribed := by
  unfold giveUp
  split
  · rfl
  · split
    · rw [subscribed_settle, subscribed_clearPending]
    · rfl

theorem subscribed_abort (s : Router) (sig : ℕ) (reason : AbortReason) :
    (s.abort sig reason).subscribed = s.subscribed := by
  have hfold (ws : List ℕ) (s : Router) :
      (ws.foldl (fun s w => s.giveUp w fun wt => abortError reason wt.label) s).subscribed
        = s.subscribed := by
    induction ws generalizing s with
    | nil => rfl
    | cons w ws ih => rw [List.foldl_cons, ih, subscribed_giveUp]
  unfold abort
  rw [hfold]
  funext q
  cases q <;> rfl

theorem subscribed_handled {taskId : JsString} {data : MessageData} {q : Queue}
    (h : s.step (KafkaRouter.handled taskId data q) = some r) : r.subscribed = s.subscribed := by
  cases q with
  | completed =>
      obtain rfl := Option.some.inj h
      unfold onCompleted
      split
      · rfl
      · rw [subscribed_settle, subscribed_clearPending]
  | failed =>
      obtain rfl := Option.some.inj h
      unfold onFailed
      split
      · rfl
      · split
        · rw [subscribed_clearPending]
        · rw [subscribed_settle, subscribed_clearPending]

theorem subscribed_timer {w : ℕ} (h : s.step (.timer w) = some r) :
    r.subscribed = s.subscribed := by
  rw [step] at h
  split at h
  · obtain rfl := Option.some.inj h
    rw [subscribed_giveUp]
    funext q
    cases q <;> rfl
  · exact absurd h (by simp)

theorem subscribed_rejected {q : Queue} {message : JsString}
    (h : s.step (.subscribeRejected q message) = some r) (x : Queue) :
    r.subscribed x = if x = q then false else s.subscribed x := by
  rw [step] at h
  split at h
  · obtain rfl := Option.some.inj h
    unfold subscribeFailed rejectAllPending
    rw [subscribed_rejectAll]
    cases q <;> cases x <;> rfl
  · exact absurd h (by simp)

/-- Subscribing sets the flags, and makes the calls that are not made yet. -/
theorem ensureSubscribed_flags (s : Router) :
    ∃ qs, s.ensureSubscribed (fun _ => none) = { s with
      completedSubscribed := true
      failedSubscribed := true
      subscribing := qs } := by
  obtain ⟨_, _, _, completedSubscribed, failedSubscribed, _, _, _, _, _, _⟩ := s
  unfold ensureSubscribed
  cases completedSubscribed <;> cases failedSubscribed <;> exact ⟨_, rfl⟩

/-- A `wait` that registers subscribes to both queues. -/
structure Registers (s r : Router) (w : ℕ) (wt : Wait) : Prop where
  subscribed : ∀ q, r.subscribed q = true
  resolve : r.pendingResolve.get wt.taskId = some w
  reject : r.pendingReject.get wt.taskId = some w
  settlements : r.settlements = s.settlements
  waits : r.waits = (s.numbered w wt).waits
  aborted : r.aborted = s.aborted

theorem registers_wait {w : ℕ} {wt : Wait} (hpending : s.pendingResolve.get wt.taskId = none)
    (haborted : s.abortedAlready wt = none) :
    Registers s (s.wait w wt fun _ => none) w wt := by
  have hwait : s.wait w wt (fun _ => none)
      = ((s.numbered w wt).register w wt).ensureSubscribed fun _ => none := by
    unfold wait
    have hget : (s.numbered w wt).pendingResolve.get wt.taskId = none := hpending
    have hsignal : (s.numbered w wt).abortedAlready wt = none := haborted
    simp only [hget, hsignal, Option.isSome_none, Bool.false_eq_true, if_false]
  obtain ⟨qs, hflags⟩ := ((s.numbered w wt).register w wt).ensureSubscribed_flags
  rw [hwait, hflags]
  refine ⟨fun q => ?_, ?_, ?_, rfl, rfl, rfl⟩
  · cases q <;> rfl
  · exact OrderedMap.get_set_self _ _ _
  · exact OrderedMap.get_set_self _ _ _

theorem subscribed_wait {w : ℕ} {wt : Wait} (h : s.step (.wait w wt fun _ => none) = some r) :
    r.subscribed = s.subscribed ∨ ∀ q, r.subscribed q = true := by
  rw [step] at h
  split at h
  · exact absurd h (by simp)
  · obtain rfl := Option.some.inj h
    cases hpending : s.pendingResolve.get wt.taskId with
    | some v =>
        refine .inl ?_
        have hget : (s.numbered w wt).pendingResolve.get wt.taskId = some v := hpending
        unfold wait
        simp only [hget, Option.isSome_some, if_true]
        rw [subscribed_settle]
        funext q
        cases q <;> rfl
    | none =>
        cases haborted : s.abortedAlready wt with
        | none => exact .inr (registers_wait hpending haborted).subscribed
        | some reason =>
            refine .inl ?_
            have hget : (s.numbered w wt).pendingResolve.get wt.taskId = none := hpending
            have hsignal : (s.numbered w wt).abortedAlready wt = some reason := haborted
            unfold wait
            simp only [hget, hsignal, Option.isSome_none, Bool.false_eq_true, if_false]
            rw [subscribed_settle]
            funext q
            cases q <;> rfl

end Router

namespace KafkaRouter

/-- What a message of a queue settles a wait with. -/
def answerOf (data : MessageData) : Queue → Option Settlement
  | .completed => some (.resolved (completionText data))
  | .failed => (failureError data).map Settlement.rejected

end KafkaRouter

end Kaiban
