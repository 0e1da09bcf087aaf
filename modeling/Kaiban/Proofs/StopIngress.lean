/-
The emergency stop ingress over a whole trace of calls.

Three things are shown.  A refused call touches only its own limiter, so leaving it out
changes no other answer.  What the stop limiter holds for a subject is what it granted the
subject, less what has left the window, so no closed window of ten seconds holds more than
five grants.  And a call that got past the limiter publishes its stop exactly when the
command schema takes what the token and the clock put into it: the token's subject may be
of any length, and the schema takes two hundred characters.
-/
import Kaiban.StopIngress
import Kaiban.Lib.Window
import Kaiban.Proofs.Control.Saved
import Mathlib.Data.Finset.Card

open JsString

namespace Kaiban

/-! ### One limiter -/

namespace SlidingWindowRateLimiter

variable {l : LimiterLimits} {keys : Finset JsString} {granted : JsString → List ℕ}
  {s : SlidingWindowRateLimiter} {last now : ℕ}

/-- What a limiter holds after granting `granted`, oldest first, up to the time `last`. -/
structure Tracks (l : LimiterLimits) (keys : Finset JsString) (granted : JsString → List ℕ)
    (s : SlidingWindowRateLimiter) (last : ℕ) : Prop where
  /-- What is held of a key is what has not left the window. -/
  kept : ∀ key, ∃ dropped, granted key = dropped ++ (s.windows.get key).getD [] ∧
    ∀ t ∈ dropped, t + l.windowMs < last
  sorted : ∀ key, (granted key).Pairwise (· ≤ ·)
  past : ∀ key, ∀ t ∈ granted key, t ≤ last
  sparse : ∀ key, Sparse l.maxRequests l.windowMs (granted key)
  known : ∀ key ∈ s.windows.keys, key ∈ keys

theorem tracks_init (l : LimiterLimits) (keys : Finset JsString) :
    Tracks l keys (fun _ => []) init 0 where
  kept := fun _ => ⟨[], rfl, fun _ h => absurd h (by simp)⟩
  sorted := fun _ => List.Pairwise.nil
  past := fun _ _ h => absurd h (by simp)
  sparse := fun _ => .nil
  known := fun _ h => absurd h (by simp [init, OrderedMap.empty, OrderedMap.keys])

theorem Tracks.later (h : Tracks l keys granted s last) (hnow : last ≤ now) :
    Tracks l keys granted s now where
  kept := by
    intro key
    obtain ⟨dropped, heq, hdropped⟩ := h.kept key
    exact ⟨dropped, heq, fun t ht => lt_of_lt_of_le (hdropped t ht) hnow⟩
  sorted := h.sorted
  past := fun key t ht => (h.past key t ht).trans hnow
  sparse := h.sparse
  known := h.known

theorem outside_iff {t : ℕ} : outside l now t = true ↔ t + l.windowMs < now := decide_eq_true_iff

/-- Sweeping drops only times that have left the window. -/
theorem Tracks.sweep (h : Tracks l keys granted s now) :
    Tracks l keys granted (s.sweep l now) now := by
  unfold SlidingWindowRateLimiter.sweep
  split
  · exact h
  refine ⟨fun key => ?_, h.sorted, h.past, h.sparse, fun key hkey => ?_⟩
  · obtain ⟨dropped, heq, hdropped⟩ := h.kept key
    have hsorted := h.sorted key
    dsimp only
    rw [OrderedMap.get_filter]
    cases hget : s.windows.get key with
    | none =>
        rw [hget] at heq
        exact ⟨dropped, heq, hdropped⟩
    | some ts =>
        rw [hget, Option.getD_some] at heq
        by_cases hkeep : (!ts.getLast?.any (outside l now)) = true
        · rw [Option.filter_some, if_pos hkeep]
          exact ⟨dropped, heq, hdropped⟩
        · rw [Option.filter_some, if_neg hkeep]
          refine ⟨granted key, (List.append_nil _).symm, fun t ht => ?_⟩
          rw [heq] at ht hsorted
          rcases List.mem_append.mp ht with hold | hmem
          · exact hdropped t hold
          · -- the newest time is outside, and none of the others is newer
            obtain ⟨newest, hnewest, houtside⟩ : ∃ x, ts.getLast? = some x ∧
                outside l now x = true := by
              cases hlast : ts.getLast? with
              | none => simp [hlast] at hkeep
              | some x => exact ⟨x, rfl, by simpa [hlast] using hkeep⟩
            have hlt := outside_iff.mp houtside
            have hle : t ≤ newest := by
              obtain ⟨before, rfl⟩ := List.getLast?_eq_some_iff.mp hnewest
              rcases List.mem_append.mp hmem with hbefore | hself
              · exact (List.pairwise_append.mp (List.pairwise_append.mp hsorted).2.1).2.2 t
                  hbefore newest (by simp)
              · exact le_of_eq (by simpa using hself)
            omega
  · refine h.known key ?_
    unfold OrderedMap.filter OrderedMap.keys at hkey
    unfold OrderedMap.keys
    exact (List.Sublist.map Prod.fst List.filter_sublist).subset hkey

/-- What was granted once the answer for a key is known. -/
def grant (granted : JsString → List ℕ) (key : JsString) (now : ℕ) (allowed : Bool) :
    JsString → List ℕ :=
  fun k => if k = key ∧ allowed = true then granted k ++ [now] else granted k

/-- What a key has left of its times when it is asked about. -/
theorem Tracks.shifted (h : Tracks l keys granted s now) (key : JsString) :
    ∃ dropped, granted key
        = dropped ++ ((s.windows.get key).getD []).dropWhile (outside l now) ∧
      ∀ t ∈ dropped, t + l.windowMs < now := by
  obtain ⟨dropped, heq, hdropped⟩ := h.kept key
  refine ⟨dropped ++ ((s.windows.get key).getD []).takeWhile (outside l now), ?_, fun t ht => ?_⟩
  · rw [List.append_assoc, List.takeWhile_append_dropWhile]
    exact heq
  · rcases List.mem_append.mp ht with hold | hmem
    · exact hdropped t hold
    · exact outside_iff.mp (List.mem_takeWhile_imp hmem)

theorem mem_keys_set {m : OrderedMap JsString (List ℕ)} {k x : JsString} {v : List ℕ}
    (h : x ∈ (m.set k v).keys) : x = k ∨ x ∈ m.keys := by
  by_cases hx : x = k
  · exact .inl hx
  · refine .inr ?_
    by_contra hnot
    have hnone := (OrderedMap.get_set_ne m v hx).trans (OrderedMap.get_eq_none.mpr hnot)
    exact OrderedMap.get_eq_none.mp hnone h

/-- The times of a key that are still in its window. -/
def current (l : LimiterLimits) (s : SlidingWindowRateLimiter) (key : JsString) (now : ℕ) :
    List ℕ :=
  ((s.windows.get key).getD []).dropWhile (outside l now)

theorem Tracks.refused (h : Tracks l keys granted s now) {key : JsString} (hkey : key ∈ keys) :
    Tracks l keys granted { s with windows :=
      if key ∈ s.windows.keys then s.windows.set key (current l s key now) else s.windows }
      now := by
  obtain ⟨dropped, heq, hdropped⟩ := h.shifted key
  by_cases hmem : key ∈ s.windows.keys
  · rw [if_pos hmem]
    refine ⟨fun k => ?_, h.sorted, h.past, h.sparse, fun k hk => ?_⟩
    · by_cases hk : k = key
      · subst hk
        exact ⟨dropped, by rw [OrderedMap.get_set_self]; exact heq, hdropped⟩
      · dsimp only
        rw [OrderedMap.get_set_ne _ _ hk]
        exact h.kept k
    · rcases mem_keys_set hk with rfl | hold
      · exact hkey
      · exact h.known k hold
  · rw [if_neg hmem]
    exact h

theorem Tracks.allowed (h : Tracks l keys granted s now) {key : JsString} (hkey : key ∈ keys)
    (hfew : keys.card ≤ l.maxKeys) (hroom : (current l s key now).length < l.maxRequests) :
    Tracks l keys (grant granted key now true) { s with windows :=
      ((s.windows.erase key).set key (current l s key now ++ [now])).newest l.maxKeys } now := by
  obtain ⟨dropped, heq, hdropped⟩ := h.shifted key
  have hself : grant granted key now true key = granted key ++ [now] := by simp [grant]
  have hother : ∀ k, k ≠ key → grant granted key now true k = granted k := by
    intro k hk
    simp [grant, hk]
  have hknown : ∀ k ∈ ((s.windows.erase key).set key (current l s key now ++ [now])).keys,
      k ∈ keys := by
    intro k hk
    rcases mem_keys_set hk with rfl | hold
    · exact hkey
    · refine h.known k ?_
      unfold OrderedMap.erase OrderedMap.keys at hold
      exact (List.Sublist.map Prod.fst List.filter_sublist).subset hold
  have hlength : ((s.windows.erase key).set key (current l s key now ++ [now])).keys.length
      ≤ l.maxKeys := by
    have hnodup : ((s.windows.erase key).set key (current l s key now ++ [now])).keys.Nodup :=
      OrderedMap.nodup _
    rw [← List.toFinset_card_of_nodup hnodup]
    refine (Finset.card_le_card fun k hk => ?_).trans hfew
    exact hknown k (List.mem_toFinset.mp hk)
  rw [OrderedMap.newest_of_length_le hlength]
  refine ⟨fun k => ?_, fun k => ?_, fun k t ht => ?_, fun k => ?_, hknown⟩
  · by_cases hk : k = key
    · subst hk
      refine ⟨dropped, ?_, hdropped⟩
      rw [hself, OrderedMap.get_set_self, Option.getD_some, heq, List.append_assoc]
      rfl
    · rw [hother k hk, OrderedMap.get_set_ne _ _ hk, OrderedMap.get_erase_ne _ hk]
      exact h.kept k
  · by_cases hk : k = key
    · subst hk
      rw [hself, List.pairwise_append]
      refine ⟨h.sorted k, List.pairwise_singleton _ _, fun t ht x hx => ?_⟩
      rw [List.mem_singleton.mp hx]
      exact h.past k t ht
    · rw [hother k hk]
      exact h.sorted k
  · by_cases hk : k = key
    · subst hk
      rw [hself] at ht
      rcases List.mem_append.mp ht with hold | hnew
      · exact h.past k t hold
      · exact le_of_eq (List.mem_singleton.mp hnew)
    · rw [hother k hk] at ht
      exact h.past k t ht
  · by_cases hk : k = key
    · subst hk
      have hsparse := h.sparse k
      rw [hself, heq]
      rw [heq] at hsparse
      exact .snoc dropped (current l s k now) now hsparse hroom hdropped
    · rw [hother k hk]
      exact h.sparse k

/-- **The answer for a key keeps a limiter in step with what it granted.** -/
theorem tracks_isAllowed {key : JsString} (h : Tracks l keys granted s last) (hnow : last ≤ now)
    (hkey : key ∈ keys) (hfew : keys.card ≤ l.maxKeys) :
    Tracks l keys (grant granted key now (s.isAllowed l key now).1) (s.isAllowed l key now).2
      now := by
  have hswept : Tracks l keys granted (s.sweep l now) now := (h.later hnow).sweep
  have hunfold : s.isAllowed l key now =
      if l.maxRequests ≤ (current l (s.sweep l now) key now).length then
        (false, { s.sweep l now with windows := if key ∈ (s.sweep l now).windows.keys then
          (s.sweep l now).windows.set key (current l (s.sweep l now) key now)
          else (s.sweep l now).windows })
      else
        (true, { s.sweep l now with windows := (((s.sweep l now).windows.erase key).set key
          (current l (s.sweep l now) key now ++ [now])).newest l.maxKeys }) := rfl
  rw [hunfold]
  by_cases hfull : l.maxRequests ≤ (current l (s.sweep l now) key now).length
  · rw [if_pos hfull]
    have hsame : grant granted key now false = granted := by
      funext k
      simp [grant]
    rw [hsame]
    exact hswept.refused hkey
  · rw [if_neg hfull]
    exact hswept.allowed hkey hfew (by omega)

end SlidingWindowRateLimiter

/-! ### One call -/

namespace EmergencyStopIngress

variable {sg : Signing} {boardSecret : JsString} {s s' : EmergencyStopIngress} {c : StopCall}

/-- A call that fails authentication touches only the limiter for such calls. -/
theorem stopAll_error (sg : Signing) (s : EmergencyStopIngress) {refusal : Refusal}
    (h : authenticate boardSecret c = .error refusal) :
    (s.stopAll sg boardSecret c).1.subject = none ∧ (s.stopAll sg boardSecret c).1.passed = false ∧
      (s.stopAll sg boardSecret c).2.limiter = s.limiter := by
  unfold stopAll
  rw [h]
  exact ⟨rfl, rfl, rfl⟩

/-- What becomes of an authenticated call. -/
theorem stopAll_ok (sg : Signing) (s : EmergencyStopIngress) {subject : JsString}
    (h : authenticate boardSecret c = .ok subject) :
    (s.stopAll sg boardSecret c).2.limiter
      = (s.limiter.isAllowed stopLimits subject c.clock).2 ∧
    (s.stopAll sg boardSecret c).1 =
      if (s.limiter.isAllowed stopLimits subject c.clock).1 = true then
        ⟨c, some subject, true, (issue sg c subject).1, (issue sg c subject).2⟩
      else ⟨c, some subject, false, .refused tooManyRequests, []⟩ := by
  unfold stopAll
  rw [h]
  dsimp only
  rcases s.limiter.isAllowed stopLimits subject c.clock with ⟨allowed, limiter⟩
  cases allowed <;> exact ⟨rfl, rfl⟩

/-- The call is authenticated. -/
def Authenticated (boardSecret : JsString) (c : StopCall) : Bool :=
  match authenticate boardSecret c with
  | .ok _ => true
  | .error _ => false

theorem subject_isSome :
    (s.stopAll sg boardSecret c).1.subject.isSome = Authenticated boardSecret c := by
  unfold Authenticated
  cases h : authenticate boardSecret c with
  | error refusal => rw [(stopAll_error sg s h).1]; rfl
  | ok subject =>
      rw [(stopAll_ok sg s h).2]
      split <;> rfl

/-- **The answers to the authenticated calls are those of the trace without the others.** -/
theorem answers_authenticated (s s' : EmergencyStopIngress) (calls : List StopCall)
    (hsame : s.limiter = s'.limiter) :
    (answers sg boardSecret s calls).filter (fun a => a.subject.isSome)
      = answers sg boardSecret s' (calls.filter (Authenticated boardSecret)) := by
  induction calls generalizing s s' with
  | nil => rfl
  | cons c rest ih =>
      rw [answers, List.filter_cons, subject_isSome, List.filter_cons]
      cases h : authenticate boardSecret c with
      | error refusal =>
          have hno : Authenticated boardSecret c = false := by simp [Authenticated, h]
          rw [hno, if_neg (by simp), if_neg (by simp)]
          exact ih _ _ ((stopAll_error sg s h).2.2.trans hsame)
      | ok subject =>
          have hyes : Authenticated boardSecret c = true := by simp [Authenticated, h]
          rw [hyes, if_pos rfl, if_pos rfl, answers]
          obtain ⟨hlimiter, hanswer⟩ := stopAll_ok sg s h
          obtain ⟨hlimiter', hanswer'⟩ := stopAll_ok sg s' h
          rw [hanswer, hanswer', hsame]
          exact congrArg _ (ih _ _ (by rw [hlimiter, hlimiter', hsame]))

/-! ### The window -/

/-- The times at which calls of a subject got past the limiter. -/
def grantedTo (subject : JsString) (as : List StopAnswer) : List ℕ :=
  (as.filter fun a => a.passed ∧ a.subject = some subject).map fun a => a.call.clock

/-- **The grants of a subject never crowd a window.** -/
theorem sparse_answers (sg : Signing) (s : EmergencyStopIngress) {keys : Finset JsString}
    (hfew : keys.card ≤ stopLimits.maxKeys)
    (calls : List StopCall) {granted : JsString → List ℕ} {last : ℕ}
    (h : SlidingWindowRateLimiter.Tracks stopLimits keys granted s.limiter last)
    (hlater : ∀ c ∈ calls, last ≤ c.clock)
    (hclock : (calls.map StopCall.clock).Pairwise (· ≤ ·))
    (hkeys : ∀ c ∈ calls, ∀ subject, authenticate boardSecret c = .ok subject → subject ∈ keys)
    (key : JsString) :
    Sparse stopLimits.maxRequests stopLimits.windowMs
      (granted key ++ grantedTo key (answers sg boardSecret s calls)) := by
  induction calls generalizing s granted last with
  | nil =>
      show Sparse _ _ (granted key ++ [])
      rw [List.append_nil]
      exact h.sparse key
  | cons c rest ih =>
      rw [List.map_cons, List.pairwise_cons] at hclock
      have hrest : ∀ x ∈ rest, c.clock ≤ x.clock := fun x hx =>
        hclock.1 x.clock (List.mem_map_of_mem hx)
      have hknown : ∀ x ∈ rest, ∀ subject, authenticate boardSecret x = .ok subject →
          subject ∈ keys := fun x hx => hkeys x (by simp [hx])
      rw [answers]
      cases hauth : authenticate boardSecret c with
      | error refusal =>
          obtain ⟨-, hpassed, hlimiter⟩ := stopAll_error sg s hauth
          have hskip : grantedTo key ((s.stopAll sg boardSecret c).1 ::
              answers sg boardSecret (s.stopAll sg boardSecret c).2 rest)
              = grantedTo key (answers sg boardSecret (s.stopAll sg boardSecret c).2 rest) := by
            unfold grantedTo
            rw [List.filter_cons_of_neg (by simp [hpassed])]
          rw [hskip]
          refine ih _ (by rw [hlimiter]; exact h) (fun x hx => ?_) hclock.2 hknown
          exact hlater x (by simp [hx])
      | ok subject =>
          obtain ⟨hlimiter, hanswer⟩ := stopAll_ok sg s hauth
          have htracks := SlidingWindowRateLimiter.tracks_isAllowed h (hlater c (by simp))
            (hkeys c (by simp) subject hauth) hfew
          rw [← hlimiter] at htracks
          have hnext := ih _ htracks hrest hclock.2 hknown
          have hsplit : granted key ++ grantedTo key ((s.stopAll sg boardSecret c).1 ::
              answers sg boardSecret (s.stopAll sg boardSecret c).2 rest)
              = SlidingWindowRateLimiter.grant granted subject c.clock
                  (s.limiter.isAllowed stopLimits subject c.clock).1 key
                ++ grantedTo key (answers sg boardSecret (s.stopAll sg boardSecret c).2 rest) := by
            unfold grantedTo SlidingWindowRateLimiter.grant
            rw [hanswer]
            cases (s.limiter.isAllowed stopLimits subject c.clock).1 with
            | false => simp
            | true =>
                by_cases hk : key = subject
                · simp [hk]
                · simp [hk, Ne.symm hk]
          rw [hsplit]
          exact hnext

/-! ### What is published -/

/-- The members of a command that was not checked are read exactly when the schema takes
them. -/
theorem parse_newStop (cmd : NewStopCommand) (hid : 0 < cmd.commandId.length ∧
      cmd.commandId.length ≤ 100) (hreason : ∀ r ∈ cmd.reason, r.length ≤ 500)
    (hby : 0 < cmd.issuedBy.length ∧ cmd.issuedBy.length ≤ 200)
    (hat : 0 < cmd.issuedAt ∧ cmd.issuedAt ≤ 9007199254740991) :
    ∃ valid : StopAllCommand, parseStopAllCommand (.obj cmd.members) = some valid ∧
      valid.members = cmd.members ∧ valid.issuedBy = cmd.issuedBy := by
  let valid : StopAllCommand :=
    ⟨cmd.commandId, cmd.issuedBy, cmd.issuedAt, cmd.reason, hid, hby, hat, hreason⟩
  have hmembers : valid.members = cmd.members := by
    unfold StopAllCommand.members NewStopCommand.members reasonMembers
    cases hr : cmd.reason <;> simp [valid, hr]
  exact ⟨valid, by rw [← hmembers]; exact parseStopAllCommand_members valid, hmembers, rfl⟩

theorem sizes_of_parse {cmd : NewStopCommand} {valid : StopAllCommand}
    (h : parseStopAllCommand (.obj cmd.members) = some valid) :
    cmd.issuedBy.length ≤ 200 ∧ 0 < cmd.issuedAt ∧ cmd.issuedAt ≤ 9007199254740991 := by
  have hread := readAs_of_parse h
  have hby : textMember cmd.members (js "issuedBy") = some cmd.issuedBy := by
    unfold NewStopCommand.members reasonMembers
    cases cmd.reason <;> rfl
  have hat : Json.get cmd.members (js "issuedAt") = some (.num (JsNumber.ofInt cmd.issuedAt)) := by
    unfold NewStopCommand.members reasonMembers
    cases cmd.reason <;> rfl
  have hsame : cmd.issuedAt = valid.issuedAt := by
    have hnumber := Json.num.inj (Option.some.inj
      (hat.symm.trans (get_of_momentMember hread.issuedAt)))
    exact_mod_cast Decimal.ofInt_injective (JsNumber.finite.inj hnumber)
  rw [Option.some.inj (hby.symm.trans hread.issuedBy), hsame]
  exact ⟨valid.issuedBy_size.2, valid.issuedAt_safe⟩

/-- The body has no reason, or one that is a text of at most 500 characters. -/
def ReasonFits (body : Option Json) : Prop :=
  ∀ v ∈ bodyReason body, ∃ reason, v = .str reason ∧ reason.length ≤ maxReasonLen

theorem reasonOf_fits {body : Option Json} (h : ReasonFits body) :
    ∃ reason, reasonOf body = some reason ∧ ∀ r ∈ reason, r.length ≤ 500 := by
  unfold reasonOf
  cases hbody : bodyReason body with
  | none => exact ⟨none, rfl, fun r hr => absurd hr (by simp)⟩
  | some v =>
      obtain ⟨reason, rfl, hlength⟩ := h v hbody
      dsimp only
      by_cases hempty : reason = []
      · rw [if_pos hempty]
        exact ⟨none, rfl, fun r hr => absurd hr (by simp)⟩
      · rw [if_neg hempty, if_neg (not_lt.mpr hlength)]
        refine ⟨some reason, rfl, fun r hr => ?_⟩
        rw [← Option.some.inj hr]
        exact hlength

theorem subject_pos {subject : JsString} (h : authenticate boardSecret c = .ok subject) :
    0 < subject.length := by
  unfold authenticate at h
  split at h
  · exact absurd h (by simp)
  split at h
  · exact absurd h (by simp)
  split at h
  · exact absurd h (by simp)
  split at h
  · rw [← Except.ok.inj h]
    exact Nat.succ_pos _
  · rw [← Except.ok.inj h]
    decide

/-- The stop of a call is out: the caller hears so, and a message is published that is read
as a stop by the token's subject. -/
structure GoesOut (sg : Signing) (a : StopAnswer) : Prop where
  accepted : ∃ saved, a.outcome = .ok a.call.commandId a.call.moment saved
  published : ∃ message cmd, .publish controlChannel message ∈ a.sent ∧
    commandOfMessage sg message = some cmd ∧ a.subject = some cmd.issuedBy

/-- What the schema asks of a token's subject and of the clock. -/
def StopFits (a : StopAnswer) : Prop :=
  (∀ subject ∈ a.subject, subject.length ≤ 200) ∧
    0 < a.call.moment ∧ a.call.moment ≤ 9007199254740991

theorem goesOut_iff {a : StopAnswer} {subject : JsString}
    (hsubject : authenticate boardSecret a.call = .ok subject)
    (ha : a = ⟨a.call, some subject, true, (issue sg a.call subject).1,
      (issue sg a.call subject).2⟩)
    (hreason : ReasonFits a.call.body) (hsaved : a.call.saved ≠ none)
    (hpublished : a.call.published = true) : GoesOut sg a ↔ StopFits a := by
  obtain ⟨reason, hreasonOf, hlength⟩ := reasonOf_fits hreason
  obtain ⟨saved, hsaved⟩ := Option.ne_none_iff_exists'.mp hsaved
  set cmd := createStopAllCommand a.call.commandId subject reason a.call.moment with hcmd
  have houtcome : (a.outcome, a.sent) = issue sg a.call subject := by rw [ha]
  unfold issue at houtcome
  rw [hreasonOf] at houtcome
  dsimp only at houtcome
  rw [← hcmd] at houtcome
  unfold issueStopAll at houtcome
  have hbound : ∀ r ∈ cmd.reason, r.length ≤ 500 := fun r hr =>
    hlength r (Option.mem_filter_iff.mp hr).1
  constructor
  · rintro ⟨⟨_, haccepted⟩, -⟩
    cases hparse : parseStopAllCommand (.obj cmd.members) with
    | none =>
        rw [hparse] at houtcome
        rw [haccepted] at houtcome
        exact absurd (congrArg Prod.fst houtcome) (by simp)
    | some valid =>
        obtain ⟨hby, hat⟩ := sizes_of_parse hparse
        refine ⟨fun x hx => ?_, hat⟩
        rw [ha] at hx
        rw [← Option.some.inj hx]
        exact hby
  · rintro ⟨hby, hat⟩
    obtain ⟨valid, hparse, hmembers, hissued⟩ := parse_newStop cmd
      (by show 0 < a.call.commandId.length ∧ a.call.commandId.length ≤ 100
          rw [a.call.commandId_size]; decide) hbound
      ⟨subject_pos hsubject, hby subject (by rw [ha]; rfl)⟩ hat
    rw [hparse] at houtcome
    dsimp only at houtcome
    rw [hsaved] at houtcome
    dsimp only at houtcome
    rw [if_pos hpublished] at houtcome
    obtain ⟨ho, hs⟩ := Prod.mk.inj houtcome
    refine ⟨⟨saved, ho⟩, wrapSigned sg a.call.signedAt (.obj cmd.members), valid, ?_, ?_, ?_⟩
    · rw [hs]
      simp
    · rw [← hmembers]
      exact commandOfMessage_published a.call.signedAt valid
    · rw [ha, hissued]
      rfl

theorem mem_answers {calls : List StopCall} {a : StopAnswer}
    (h : a ∈ answers sg boardSecret s calls) :
    ∃ s' c, a = (EmergencyStopIngress.stopAll sg boardSecret s' c).1 := by
  induction calls generalizing s with
  | nil => exact absurd h (by simp [answers])
  | cons c rest ih =>
      rw [answers] at h
      rcases List.mem_cons.mp h with rfl | hrest
      · exact ⟨s, c, rfl⟩
      · exact ih hrest

/-- The subjects of the tokens of some calls. -/
def subjects (boardSecret : JsString) (calls : List StopCall) : Finset JsString :=
  (calls.filterMap fun c => (authenticate boardSecret c).toOption).toFinset

/-- **What is refused cannot interfere, no subject gets more than five stops through in ten
seconds, and a stop that gets through is published exactly when its subject is no longer
than the schema allows.** -/
theorem ingress_stops (sg : Signing) (boardSecret : JsString) (calls : List StopCall)
    (hclock : (calls.map StopCall.clock).Pairwise (· ≤ ·))
    (hfew : (subjects boardSecret calls).card < 100000) :
    ((answers sg boardSecret init calls).filter fun a => a.subject.isSome).map StopAnswer.outcome
      = (answers sg boardSecret init (calls.filter (Authenticated boardSecret))).map
          StopAnswer.outcome ∧
    (∀ subject t, ((answers sg boardSecret init calls).filter fun a => a.passed ∧
      a.subject = some subject ∧ t ≤ a.call.clock ∧ a.call.clock ≤ t + 10000).length ≤ 5) ∧
    ∀ a ∈ answers sg boardSecret init calls, a.passed = true → ReasonFits a.call.body →
      a.call.saved ≠ none → a.call.published = true → (GoesOut sg a ↔ StopFits a) := by
  refine ⟨?_, fun subject t => ?_, fun a ha hpassed hreason hsaved hpublished => ?_⟩
  · rw [answers_authenticated init init calls rfl]
  · have hknown : ∀ c ∈ calls, ∀ subject, authenticate boardSecret c = .ok subject →
        subject ∈ subjects boardSecret calls := by
      intro c hc subject hsubject
      unfold subjects
      rw [List.mem_toFinset, List.mem_filterMap]
      exact ⟨c, hc, by rw [hsubject]; rfl⟩
    have hsparse := sparse_answers sg init (le_of_lt hfew) calls
      (SlidingWindowRateLimiter.tracks_init stopLimits _) (fun _ _ => Nat.zero_le _) hclock hknown
      subject
    have hwindow := hsparse.window_le t
    rw [List.nil_append] at hwindow
    change (List.filter (fun x => decide (t ≤ x ∧ x ≤ t + 10000)) _).length ≤ 5 at hwindow
    refine le_trans (le_of_eq ?_) hwindow
    unfold grantedTo
    rw [List.filter_map, List.length_map, List.filter_filter]
    congr 2
    funext a
    rw [Bool.eq_iff_iff]
    simp only [Function.comp_apply, Bool.and_eq_true, decide_eq_true_eq]
    tauto
  · obtain ⟨s', c, heq⟩ := mem_answers ha
    cases hauth : authenticate boardSecret c with
    | error refusal =>
        rw [heq, (stopAll_error sg s' hauth).2.1] at hpassed
        exact absurd hpassed (by simp)
    | ok subject =>
        rw [(stopAll_ok sg s' hauth).2] at heq
        split at heq
        · have hcall : a.call = c := by rw [heq]
          subst hcall
          exact goesOut_iff hauth heq hreason hsaved hpublished
        · rw [heq] at hpassed
          exact absurd hpassed (by simp)

/-- A call with a token of the given subject, at the time one. -/
def callOf (subject : JsString) : StopCall where
  token := some (js "token")
  verified := some (.obj [(js "role", .str (js "board-viewer")), (js "sub", .str subject)])
  body := none
  clientKey := js "10.0.0.1"
  clock := 1
  commandId := List.replicate 36 0x61
  commandId_size := List.length_replicate
  moment := 1
  ackAt := 1
  signedAt := 1
  ackSignedAt := 1
  saved := some true
  published := true

/-- What becomes of such a call, when it is the first one. -/
def answerTo (subject : JsString) : StopAnswer :=
  ⟨callOf subject, some subject, true, (issue fixedSigning (callOf subject) subject).1,
    (issue fixedSigning (callOf subject) subject).2⟩

theorem answers_callOf (subject : JsString) (h : 0 < subject.length) :
    answers fixedSigning (js "secret") init [callOf subject] = [answerTo subject] := by
  have hauth : authenticate (js "secret") (callOf subject) = .ok subject := by
    cases subject with
    | nil => exact absurd h (by simp)
    | cons u rest => rfl
  have hallowed : (init.limiter.isAllowed stopLimits subject (callOf subject).clock).1 = true :=
    rfl
  show [_] = _
  rw [(stopAll_ok fixedSigning init hauth).2, if_pos hallowed]
  rfl

/-- The call leaves nothing else in the way of its stop. -/
theorem reasonFits_callOf (subject : JsString) : ReasonFits (answerTo subject).call.body := by
  intro v hv
  exact absurd hv (by simp [bodyReason, answerTo, callOf])

/-- An operator's stop goes out. -/
theorem ingress_stops_operator :
    ∃ a, answers fixedSigning (js "secret") init [callOf (js "operator")] = [a] ∧
      GoesOut fixedSigning a := by
  have hanswers := answers_callOf (js "operator") (by decide)
  have h := (ingress_stops fixedSigning (js "secret") [callOf (js "operator")] (by simp)
    (by decide)).2.2
  rw [hanswers] at h
  have hiff := h (answerTo (js "operator")) (List.mem_singleton_self _) rfl (reasonFits_callOf _)
    (Option.some_ne_none true) rfl
  refine ⟨_, hanswers, hiff.mpr ⟨fun subject hsubject => ?_, by decide, by decide +kernel⟩⟩
  rw [← Option.some.inj hsubject]
  decide

/-- **A stop whose token has a subject of 201 characters is answered with an error.** -/
theorem long_subject_fails :
    ¬ ∀ (sg : Signing) (boardSecret : JsString) (calls : List StopCall),
      (calls.map StopCall.clock).Pairwise (· ≤ ·) → (subjects boardSecret calls).card < 100000 →
      ∀ a ∈ answers sg boardSecret init calls, a.passed = true → ReasonFits a.call.body →
        a.call.saved ≠ none → a.call.published = true → GoesOut sg a := by
  intro hall
  have hanswers := answers_callOf (List.replicate 201 0x61)
    (by rw [List.length_replicate]; decide)
  have h := hall fixedSigning (js "secret") [callOf (List.replicate 201 0x61)] (by simp)
    (lt_of_le_of_lt (Multiset.toFinset_card_le _) (by decide))
  rw [hanswers] at h
  obtain ⟨saved, haccepted⟩ := (h (answerTo (List.replicate 201 0x61))
    (List.mem_singleton_self _) rfl (reasonFits_callOf _) (Option.some_ne_none true) rfl).accepted
  have hrefused : (answerTo (List.replicate 201 0x61)).outcome
      = .refused ⟨.serverError, js "Redis write failed"⟩ := by decide +kernel
  rw [hrefused] at haccepted
  exact absurd haccepted (by simp)

end EmergencyStopIngress

end Kaiban
