/-
One board over a whole run.

What it shows is what the deltas since its last connection make of an empty board, so a board
that was sent a snapshot and then every broadcast shows the gateway's snapshot, whatever it
showed before.  The log holds at most its two hundred entries, no two with the same id, and
the badge says LIVE exactly while there is a connection.

`Reacts` says once what a reaction can be, and the step lemmas are read off it: what an event
writes to the alert, what it makes of a request, and what of that which is shown.
-/
import Kaiban.BoardClient
import Kaiban.Lib.Steps
import Kaiban.Proofs.Board

open JsString

namespace Kaiban

namespace BoardClient

variable {s s' : BoardClient} {e : BoardClientEvent}

/-! ### One reaction -/

/-- What a reaction can be, and what it makes of the board. -/
inductive Reacts (s : BoardClient) : BoardClientEvent → BoardClient → Prop
  | connect (h : ¬s.connected = true) : Reacts s .connect
      ({ s with connected := true }.setConnectionStatus .live []).resetState
  | disconnect (reason detail : JsString) (h : s.connected = true) : Reacts s (.disconnect reason)
      ({ s with connected := false }.setConnectionStatus .disconnected detail)
  | connectError (active : Bool) (message : JsString) (h : ¬s.connected = true) :
      Reacts s (.connectError active message)
        (s.setConnectionStatus (if active then .disconnected else .error) message)
  | stateUpdate (d : BoardDelta) (h : s.connected = true) :
      Reacts s (.stateUpdate d) (s.applyDelta d)
  | sendHitlDecision (taskId : JsString) (decision : HitlDecision) :
      Reacts s (.sendHitlDecision taskId decision) (s.sendHitlDecision taskId decision)
  | sendStopAll (reason : Option JsString) : Reacts s (.sendStopAll reason) (s.sendStopAll reason)
  | replied (i : ℕ) (request : BoardRequest) (timer : AckTimer) (reply : Option BoardReply)
      (hr : s.requests[i]? = some ⟨request, timer, none⟩) : Reacts s (.replied i reply)
        ((s.setRequest i ⟨request, if timer = .set then .cleared else timer, some reply⟩).replied
          request reply)
  | timedOut (i : ℕ) (request : BoardRequest) (reply : Option (Option BoardReply))
      (hr : s.requests[i]? = some ⟨request, .set, reply⟩) : Reacts s (.timedOut i)
        ((s.setRequest i ⟨request, .fired, reply⟩).timedOut request)

theorem reacts_of_step (h : s.step e = some s') : Reacts s e s' := by
  cases e with
  | connect =>
      simp only [step] at h
      split at h
      · exact absurd h (by simp)
      · obtain rfl := Option.some.inj h
        exact .connect ‹_›
  | disconnect reason =>
      simp only [step] at h
      split at h
      · obtain rfl := Option.some.inj h
        exact .disconnect reason _ ‹_›
      · exact absurd h (by simp)
  | connectError active message =>
      simp only [step] at h
      split at h
      · exact absurd h (by simp)
      · obtain rfl := Option.some.inj h
        exact .connectError active message ‹_›
  | stateUpdate d =>
      simp only [step] at h
      split at h
      · obtain rfl := Option.some.inj h
        exact .stateUpdate d ‹_›
      · exact absurd h (by simp)
  | sendHitlDecision taskId decision =>
      obtain rfl := Option.some.inj h
      exact .sendHitlDecision taskId decision
  | sendStopAll reason =>
      obtain rfl := Option.some.inj h
      exact .sendStopAll reason
  | replied i reply =>
      simp only [step] at h
      split at h
      · rename_i request timer hr
        obtain rfl := Option.some.inj h
        exact .replied i request timer reply hr
      · exact absurd h (by simp)
  | timedOut i =>
      simp only [step] at h
      split at h
      · rename_i request reply hr
        obtain rfl := Option.some.inj h
        exact .timedOut i request reply hr
      · exact absurd h (by simp)

@[simp] theorem applyDelta_controlError (s : BoardClient) (d : BoardDelta) :
    (s.applyDelta d).controlError = s.controlError := by
  unfold applyDelta
  extract_lets lines
  split <;> rfl

@[simp] theorem applyDelta_requests (s : BoardClient) (d : BoardDelta) :
    (s.applyDelta d).requests = s.requests := by
  unfold applyDelta
  extract_lets lines
  split <;> rfl

theorem sendHitlDecision_requests (s : BoardClient) (taskId : JsString)
    (decision : HitlDecision) : (s.sendHitlDecision taskId decision).requests
      = s.requests ++ [⟨.decision taskId decision, .set, none⟩] ∨
    (s.sendHitlDecision taskId decision).requests = s.requests := by
  unfold sendHitlDecision
  split
  · exact .inl rfl
  · exact .inr rfl

theorem sendStopAll_requests (s : BoardClient) (reason : Option JsString) :
    (s.sendStopAll reason).requests = s.requests ++ [⟨.stopAll reason, .set, none⟩] ∨
      (s.sendStopAll reason).requests = s.requests := by
  unfold sendStopAll
  extract_lets cleared
  split
  · exact .inl rfl
  · exact .inr rfl

/-! ### The alert -/

/-- What an event writes to the alert. -/
def alertWrite (s : BoardClient) : BoardClientEvent → Option (Option JsString)
  | .connect => some none
  | .sendStopAll _ => some (if s.connected then none else some notConnected)
  | .replied i reply =>
      match s.requests[i]? with
      | some ⟨.stopAll _, _, _⟩ => some (if confirmed reply then none else some (stopRefused reply))
      | _ => none
  | .timedOut i =>
      match s.requests[i]? with
      | some ⟨.stopAll _, _, _⟩ => some (some notConfirmed)
      | _ => none
  | _ => none

/-- **Clicks, connections, timers and answers write the alert, and nothing else does.** -/
theorem alert_step (h : s.step e = some s') :
    s'.controlError = (s.alertWrite e).getD s.controlError := by
  cases reacts_of_step h with
  | connect _ => rfl
  | disconnect reason detail _ => rfl
  | connectError active message _ => rfl
  | stateUpdate d _ => exact applyDelta_controlError s d
  | sendHitlDecision taskId decision =>
      unfold sendHitlDecision
      split <;> rfl
  | sendStopAll reason =>
      unfold sendStopAll alertWrite
      extract_lets cleared
      have hconnected : cleared.connected = s.connected := rfl
      rw [hconnected]
      split <;> rfl
  | replied i request timer reply hr =>
      simp only [alertWrite, hr]
      cases request with
      | decision taskId decision =>
          simp only [replied]
          split <;> rfl
      | stopAll reason =>
          simp only [replied]
          split <;> rfl
  | timedOut i request reply hr =>
      simp only [alertWrite, hr]
      cases request <;> rfl

/-! ### The requests -/

/-- What an event makes of request `i`. -/
inductive RequestGoes (e : BoardClientEvent) (i : ℕ) : SentRequest → SentRequest → Prop
  | same (r : SentRequest) : RequestGoes e i r r
  | replied (request : BoardRequest) (timer : AckTimer) (reply : Option BoardReply)
      (he : e = .replied i reply) : RequestGoes e i ⟨request, timer, none⟩
        ⟨request, if timer = .set then .cleared else timer, some reply⟩
  | timedOut (request : BoardRequest) (reply : Option (Option BoardReply)) (he : e = .timedOut i) :
      RequestGoes e i ⟨request, .set, reply⟩ ⟨request, .fired, reply⟩

theorem RequestGoes.request {i : ℕ} {r r' : SentRequest} (h : RequestGoes e i r r') :
    r'.request = r.request := by
  cases h <;> rfl

/-- The requests after an event: some is new, or each goes on. -/
theorem requests_step (h : s.step e = some s') :
    (∃ request, s'.requests = s.requests ++ [⟨request, .set, none⟩]) ∨
    (s'.requests.length = s.requests.length ∧ ∀ i r, s.requests[i]? = some r →
      ∃ r', s'.requests[i]? = some r' ∧ RequestGoes e i r r') := by
  have hsame : s'.requests = s.requests → s'.requests.length = s.requests.length ∧
      ∀ i r, s.requests[i]? = some r → ∃ r', s'.requests[i]? = some r' ∧ RequestGoes e i r r' := by
    intro heq
    rw [heq]
    exact ⟨rfl, fun i r hr => ⟨r, hr, .same r⟩⟩
  have hset : ∀ {j r r'}, s.requests[j]? = some r → s'.requests = s.requests.set j r' →
      RequestGoes e j r r' → s'.requests.length = s.requests.length ∧
      ∀ i r, s.requests[i]? = some r → ∃ r', s'.requests[i]? = some r' ∧ RequestGoes e i r r' := by
    intro j r r' hr heq hgoes
    rw [heq]
    refine ⟨List.length_set, fun i q hq => ?_⟩
    by_cases hij : j = i
    · subst hij
      obtain rfl := Option.some.inj (hr.symm.trans hq)
      refine ⟨r', ?_, hgoes⟩
      rw [List.getElem?_set_self (List.getElem?_eq_some_iff.mp hr).1]
    · exact ⟨q, by rw [List.getElem?_set_ne hij, hq], .same q⟩
  cases reacts_of_step h with
  | connect _ => exact .inr (hsame rfl)
  | disconnect reason detail _ => exact .inr (hsame rfl)
  | connectError active message _ => exact .inr (hsame rfl)
  | stateUpdate d _ => exact .inr (hsame (applyDelta_requests s d))
  | sendHitlDecision taskId decision =>
      rcases sendHitlDecision_requests s taskId decision with hsent | hsent
      · exact .inl ⟨_, hsent⟩
      · exact .inr (hsame hsent)
  | sendStopAll reason =>
      rcases sendStopAll_requests s reason with hsent | hsent
      · exact .inl ⟨_, hsent⟩
      · exact .inr (hsame hsent)
  | replied i request timer reply hr =>
      refine .inr (hset hr ?_ (.replied request timer reply rfl))
      cases request <;> simp only [replied] <;> split <;> rfl
  | timedOut i request reply hr =>
      refine .inr (hset hr ?_ (.timedOut request reply rfl))
      cases request <;> rfl

/-- A request stays where it is. -/
theorem request_step (h : s.step e = some s') {i : ℕ} {r : SentRequest}
    (hr : s.requests[i]? = some r) : ∃ r', s'.requests[i]? = some r' ∧ RequestGoes e i r r' := by
  rcases requests_step h with ⟨request, hnew⟩ | ⟨-, hgoes⟩
  · refine ⟨r, ?_, .same r⟩
    rw [hnew, List.getElem?_append_left (List.getElem?_eq_some_iff.mp hr).1, hr]
  · exact hgoes i r hr

/-- Where a request comes from: it is new, or it went on from one. -/
theorem request_origin (h : s.step e = some s') {i : ℕ} {r' : SentRequest}
    (hr : s'.requests[i]? = some r') : (∃ request, r' = ⟨request, .set, none⟩) ∨
      ∃ r, s.requests[i]? = some r ∧ RequestGoes e i r r' := by
  have hlt : i < s'.requests.length := (List.getElem?_eq_some_iff.mp hr).1
  by_cases hold : i < s.requests.length
  · obtain ⟨q, hq, hgoes⟩ := request_step h (List.getElem?_eq_getElem hold)
    obtain rfl := Option.some.inj (hr.symm.trans hq)
    exact .inr ⟨_, List.getElem?_eq_getElem hold, hgoes⟩
  · rcases requests_step h with ⟨request, hnew⟩ | ⟨hlength, -⟩
    · rw [hnew, List.length_append, List.length_singleton] at hlt
      obtain rfl : i = s.requests.length := by omega
      rw [hnew, List.getElem?_concat_length] at hr
      exact .inl ⟨request, (Option.some.inj hr).symm⟩
    · exact absurd (hlength ▸ hlt) hold

/-! ### The log -/

/-- The log of a board. -/
structure LogKept (s : BoardClient) : Prop where
  few : s.log.length ≤ maxLogEntries
  distinct : (s.log.map LogEntry.id).Nodup
  /-- Its ids were given out. -/
  known : ∀ entry ∈ s.log, entry.id ≤ s.logIdCounter

theorem entries_ids (counter : ℕ) (lines : List LogLine) :
    (entries counter lines).map LogEntry.id
      = (List.range' 0 lines.length).map fun i => counter + i + 1 := by
  unfold entries
  rw [← List.zipIdx_map_snd 0 lines, List.map_map, List.map_map]
  rfl

theorem mem_entries {counter : ℕ} {lines : List LogLine} {entry : LogEntry}
    (h : entry ∈ entries counter lines) :
    counter < entry.id ∧ entry.id ≤ counter + lines.length := by
  have hid : entry.id ∈ (entries counter lines).map LogEntry.id := List.mem_map_of_mem h
  rw [entries_ids] at hid
  obtain ⟨i, hi, heq⟩ := List.mem_map.mp hid
  have hlt := (List.mem_range'_1.mp hi).2
  omega

theorem LogKept.addEntries (h : s.LogKept) (lines : List LogLine) :
    (s.addEntries lines).LogKept := by
  unfold BoardClient.addEntries
  by_cases hempty : lines = []
  · rw [if_pos hempty, hempty]
    exact h
  rw [if_neg hempty]
  refine ⟨List.length_take_le _ _, ?_, fun entry hentry => ?_⟩
  · have hall : ((entries s.logIdCounter lines ++ s.log).map LogEntry.id).Nodup := by
      rw [List.map_append, List.nodup_append]
      refine ⟨?_, h.distinct, fun i hi j hj hij => ?_⟩
      · rw [entries_ids]
        exact List.Nodup.map (fun i j hij => by omega) List.nodup_range'
      · obtain ⟨new, hnew, rfl⟩ := List.mem_map.mp hi
        obtain ⟨old, hold, rfl⟩ := List.mem_map.mp hj
        have hlt := (mem_entries hnew).1
        have hle := h.known old hold
        omega
    exact hall.sublist ((List.take_sublist _ _).map _)
  · dsimp only at hentry ⊢
    rcases List.mem_append.mp (List.mem_of_mem_take hentry) with hnew | hold
    · exact (mem_entries hnew).2
    · exact (h.known entry hold).trans (Nat.le_add_right _ _)

/-! ### What is shown -/

/-- What a delta makes of a board; one that throws changes nothing. -/
def showDelta (b : Board) (d : BoardDelta) : Board := if d.throws then b else b.applyDelta d.delta

/-- What an event makes of a board. -/
def showEvent (b : Board) : BoardClientEvent → Board
  | .connect => .initialState
  | .stateUpdate d => showDelta b d
  | _ => b

/-- LIVE is shown exactly while there is a connection. -/
def BadgeRight (s : BoardClient) : Prop := s.connectionStatus = .live ↔ s.connected = true

/-- What an event makes of what a board shows. -/
structure Shows (e : BoardClientEvent) (s s' : BoardClient) : Prop where
  board : s'.board = showEvent s.board e
  badge : s.BadgeRight → s'.BadgeRight
  log : ∃ lines, s'.log = (s.addEntries lines).log ∧
    s.logIdCounter + lines.length ≤ s'.logIdCounter

/-- **One reaction, and what is shown.** -/
theorem shows_step (h : s.step e = some s') : Shows e s s' := by
  cases reacts_of_step h with
  | connect _ => exact ⟨rfl, fun _ => ⟨fun _ => rfl, fun _ => rfl⟩, _, rfl, le_rfl⟩
  | disconnect reason detail _ =>
      refine ⟨rfl, fun _ => ⟨fun hlive => ?_, fun hconnected => ?_⟩, _, rfl, le_rfl⟩
      · exact absurd hlive (by simp [setConnectionStatus])
      · exact absurd hconnected (by simp [setConnectionStatus, addEntries])
  | connectError active message hnot =>
      refine ⟨rfl, fun _ => ⟨fun hlive => ?_, fun hconnected => absurd hconnected hnot⟩, _, rfl,
        le_rfl⟩
      cases active <;> exact absurd hlive (by simp [setConnectionStatus])
  | stateUpdate d _ =>
      unfold applyDelta
      extract_lets lines
      by_cases hthrows : d.throws = true
      · rw [if_pos hthrows]
        refine ⟨?_, id, [], rfl, Nat.le_add_right s.logIdCounter (lines.length + 1)⟩
        rw [showEvent, showDelta, if_pos hthrows]
      · rw [if_neg hthrows]
        refine ⟨?_, id, lines, rfl, le_rfl⟩
        rw [showEvent, showDelta, if_neg hthrows]
  | sendHitlDecision taskId decision =>
      unfold sendHitlDecision
      split <;> exact ⟨rfl, id, _, rfl, le_rfl⟩
  | sendStopAll reason =>
      unfold sendStopAll
      extract_lets cleared
      split <;> exact ⟨rfl, id, _, rfl, le_rfl⟩
  | replied i request timer reply hr =>
      cases request <;> simp only [replied] <;> split <;> exact ⟨rfl, id, _, rfl, le_rfl⟩
  | timedOut i request reply hr =>
      cases request <;> exact ⟨rfl, id, _, rfl, le_rfl⟩

theorem LogKept.step (h : s.LogKept) (hstep : s.step e = some s') : s'.LogKept := by
  obtain ⟨lines, hlog, hcounter⟩ := (shows_step hstep).log
  obtain ⟨hfew, hdistinct, hknown⟩ := h.addEntries lines
  rw [← hlog] at hfew hdistinct hknown
  exact ⟨hfew, hdistinct, fun entry hentry => (hknown entry hentry).trans hcounter⟩

/-! ### Runs -/

/-- The deltas since the last connection, after one more event. -/
def sessionStep (ds : List BoardDelta) : BoardClientEvent → List BoardDelta
  | .connect => []
  | .stateUpdate d => ds ++ [d]
  | _ => ds

/-- The deltas since the last connection. -/
def session (events : List BoardClientEvent) : List BoardDelta := events.foldl sessionStep []

theorem showEvent_session (ds : List BoardDelta) (e : BoardClientEvent) :
    showEvent (ds.foldl showDelta .initialState) e
      = (sessionStep ds e).foldl showDelta .initialState := by
  cases e with
  | stateUpdate d =>
      rw [sessionStep, List.foldl_append]
      rfl
  | _ => rfl

theorem board_run {events : List BoardClientEvent} :
    ∀ {s t : BoardClient} (ds : List BoardDelta), s.board = ds.foldl showDelta .initialState →
      Steps.run step s events = some t →
      t.board = (events.foldl sessionStep ds).foldl showDelta .initialState := by
  induction events with
  | nil =>
      intro s t ds hs hrun
      obtain rfl : s = t := by simpa using hrun
      exact hs
  | cons e rest ih =>
      intro s t ds hs hrun
      obtain ⟨m, hm, hrest⟩ := Steps.run_cons_some.mp hrun
      refine ih (sessionStep ds e) ?_ hrest
      rw [(shows_step hm).board, hs, showEvent_session]

/-- **A board shows what came since it connected last, its badge is right, and its log is
short and in order.** -/
theorem board_session {events : List BoardClientEvent}
    (hrun : Steps.run step init events = some s) :
    s.board = (session events).foldl showDelta .initialState ∧ s.BadgeRight ∧ s.LogKept := by
  refine ⟨board_run [] rfl hrun, ?_, ?_⟩
  · refine Steps.invariant (fun m e m' hm hstep => (shows_step hstep).badge hm) ?_ hrun
    exact ⟨fun hlive => absurd hlive (by simp [init]), fun h => absurd h (by simp [init])⟩
  · refine Steps.invariant (fun m e m' hm hstep => LogKept.step hm hstep) ?_ hrun
    exact ⟨Nat.zero_le _, List.nodup_nil, fun _ h => absurd h (by simp [init])⟩

/-! ### A board and the gateway -/

theorem taskLine_isSome {t : Fields} (h : HasId (js "taskId") t) : (taskLine t).isSome = true := by
  obtain ⟨id, hid, -⟩ := h
  unfold taskLine
  rw [hid]
  cases filledField t (js "title") <;> rfl

/-- Tasks with an id have a line. -/
theorem throws_eq_false {d : BoardDelta}
    (h : ∀ items ∈ d.delta.tasks, ∀ item ∈ items, HasId (js "taskId") item) :
    d.throws = false := by
  unfold BoardDelta.throws
  rw [List.any_eq_false]
  intro t ht
  cases htasks : d.delta.tasks with
  | none =>
      rw [htasks] at ht
      exact absurd ht (by simp)
  | some items =>
      rw [htasks, Option.getD_some] at ht
      have hsome := taskLine_isSome (h items htasks t ht)
      rw [Option.isNone_eq_false_iff.mpr hsome]
      simp

theorem foldl_showDelta {ds : List BoardDelta}
    (h : ∀ d ∈ ds, ∀ items ∈ d.delta.tasks, ∀ item ∈ items, HasId (js "taskId") item) (b : Board) :
    ds.foldl showDelta b = (ds.map BoardDelta.delta).foldl Board.applyDelta b := by
  induction ds generalizing b with
  | nil => rfl
  | cons d rest ih =>
      have hnot := throws_eq_false (h d (by simp))
      rw [List.map_cons, List.foldl_cons, List.foldl_cons, showDelta, hnot, if_neg (by simp)]
      exact ih (fun x hx => h x (by simp [hx])) _

/-- The tasks of a snapshot have their ids. -/
theorem tasks_buildSnapshot {snapshot : StateSnapshot} (h : snapshot.WellFormed) :
    ∀ items ∈ snapshot.buildSnapshot.tasks, ∀ item ∈ items, HasId (js "taskId") item := by
  intro items hitems item hitem
  unfold StateSnapshot.buildSnapshot StateSnapshot.valuesOf at hitems
  dsimp only at hitems
  split at hitems
  · exact absurd hitems (by simp)
  · obtain rfl := Option.some.inj hitems
    obtain ⟨entry, hentry, rfl⟩ := List.mem_map.mp hitem
    exact ⟨entry.1, h.tasks entry hentry⟩

theorem tasks_noteStop {snapshot : StateSnapshot} {cmd : LastStop} {d : StateDelta}
    (h : d ∈ (snapshot.noteStop cmd).2) : d.tasks = none := by
  unfold StateSnapshot.noteStop at h
  cases hplane : snapshot.controlPlane with
  | none =>
      rw [hplane] at h
      exact absurd h (by simp)
  | some plane =>
      rw [hplane] at h
      dsimp only at h
      split at h
      · exact absurd h (by simp)
      · rw [← Option.some.inj h]

/-- So have those of what the boards are sent. -/
theorem tasks_broadcasts {es : List GatewayEvent} (hes : ∀ e ∈ es, e.WellFormed)
    (snapshot : StateSnapshot) : ∀ d ∈ snapshot.broadcasts es, ∀ items ∈ d.tasks,
      ∀ item ∈ items, HasId (js "taskId") item := by
  induction es generalizing snapshot with
  | nil => exact fun d hd => absurd hd (by simp [StateSnapshot.broadcasts])
  | cons e rest ih =>
      intro d hd items hitems item hitem
      rcases List.mem_append.mp hd with hfirst | hrest
      · cases e with
        | delta d' =>
            obtain rfl : d = d' := by simpa [StateSnapshot.step] using hfirst
            exact (hes (.delta d) (by simp)).tasks items hitems item hitem
        | noteStop cmd =>
            rw [tasks_noteStop (Option.mem_toList.mp hfirst)] at hitems
            exact absurd hitems (by simp)
      · exact ih (fun x hx => hes x (by simp [hx])) _ d hrest items hitems item hitem

/-- **A board that got the snapshot and every broadcast since shows what the gateway has**,
whatever happened to it before it connected. -/
theorem joined_board_shows (control : Bool) (es fs : List GatewayEvent)
    (hwell : ∀ e ∈ es ++ fs, e.WellFormed) {events : List BoardClientEvent}
    (hrun : Steps.run step init events = some s)
    (hsession : (session events).map BoardDelta.delta
      = ((StateSnapshot.initial control).after es).buildSnapshot ::
        ((StateSnapshot.initial control).after es).broadcasts fs) :
    s.board = ((StateSnapshot.initial control).after (es ++ fs)).view := by
  have hjoin := view_run (fun e he => hwell e (List.mem_append_left _ he))
    (initial_wellFormed control)
  have htasks : ∀ d ∈ session events, ∀ items ∈ d.delta.tasks, ∀ item ∈ items,
      HasId (js "taskId") item := by
    intro d hd
    have hmem : d.delta ∈ (session events).map BoardDelta.delta := List.mem_map_of_mem hd
    rw [hsession] at hmem
    rcases List.mem_cons.mp hmem with heq | hbroadcast
    · rw [heq]
      exact tasks_buildSnapshot hjoin.2
    · exact tasks_broadcasts (fun e he => hwell e (List.mem_append_right _ he)) _ _ hbroadcast
  rw [board_run [] rfl hrun]
  show (session events).foldl showDelta .initialState = _
  rw [foldl_showDelta htasks, hsession]
  exact (rejoin_eq .initialState control hwell).1

/-- A board that was connected before, and connects again after the first event. -/
def rejoining : List BoardClientEvent :=
  let received (d : StateDelta) : BoardClientEvent :=
    .stateUpdate ⟨d, js "gateway", none, Decimal.ofInt 0⟩
  let snapshot := (StateSnapshot.initial true).after (restartEvents.take 1)
  [.connect, .disconnect (js "transport close"), .connectError true (js "xhr poll error"),
    .connect] ++ (snapshot.buildSnapshot :: snapshot.broadcasts (restartEvents.drop 1)).map received

theorem rejoining_runs : ∃ s, Steps.run step init rejoining = some s :=
  Option.isSome_iff_exists.mp (by decide +kernel)

theorem board_session_rejoining : ∃ s, Steps.run step init rejoining = some s ∧
    s.board = (session rejoining).foldl showDelta .initialState ∧ s.BadgeRight ∧ s.LogKept := by
  obtain ⟨s, hrun⟩ := rejoining_runs
  exact ⟨s, hrun, board_session hrun⟩

theorem joined_board_shows_rejoining : ∃ s, Steps.run step init rejoining = some s ∧
    s.board = ((StateSnapshot.initial true).after restartEvents).view := by
  obtain ⟨s, hrun⟩ := rejoining_runs
  exact ⟨s, hrun, joined_board_shows true (restartEvents.take 1) (restartEvents.drop 1)
    restartEvents_wellFormed hrun rfl⟩

end BoardClient

end Kaiban
