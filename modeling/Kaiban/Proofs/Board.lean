/-
The gateway's snapshot and a live board agree.

`view` is the board a snapshot stands for.  A board that has just reset and applied the
snapshot shows its view, a board that shows the view and gets the next broadcast shows the
next view, and one that gets the snapshot again still shows it.  So when a board joined
does not matter: it shows the view of the snapshot the gateway has now.

What this needs of a snapshot is kept by every event whose delta is well formed: each item
stands under its own id, and no text the board takes for missing is in it.
-/
import Kaiban.Board

open JsString

namespace Kaiban

/-- Every item carries the id it stands under, and no id is empty. -/
def Keyed (idKey : JsString) (map : OrderedMap JsString Fields) : Prop :=
  ∀ e ∈ map.entries, textField e.2 idKey = some e.1 ∧ e.1 ≠ []

/-- The inputs name a topic. -/
def HasTopic (inputs : Fields) : Prop :=
  ∃ topic, textField inputs (js "topic") = some topic ∧ topic ≠ []

/-- An item names its id. -/
def HasId (idKey : JsString) (item : Fields) : Prop :=
  ∃ id, textField item idKey = some id ∧ id ≠ []

structure StateDelta.WellFormed (d : StateDelta) : Prop where
  status : d.teamWorkflowStatus ≠ some []
  agents : ∀ items ∈ d.agents, ∀ item ∈ items, HasId (js "agentId") item
  tasks : ∀ items ∈ d.tasks, ∀ item ∈ items, HasId (js "taskId") item
  inputs : ∀ fields ∈ d.inputs, HasTopic fields
  reason : ∀ ack ∈ d.control, ack.reason ≠ some []
  controlPlane : d.controlPlane = none

/-- The deltas of the state channel are well formed. -/
def GatewayEvent.WellFormed : GatewayEvent → Prop
  | .delta d => d.WellFormed
  | .noteStop _ => True

structure StateSnapshot.WellFormed (s : StateSnapshot) : Prop where
  status : s.teamWorkflowStatus ≠ some []
  agents : Keyed (js "agentId") s.agents
  tasks : Keyed (js "taskId") s.tasks
  inputs : ∀ fields ∈ s.inputs, HasTopic fields

/-- The topic of the snapshot's inputs. -/
def StateSnapshot.topic (s : StateSnapshot) : JsString := Board.topicOf [] s.inputs

/-- The board a snapshot stands for. -/
def StateSnapshot.view (s : StateSnapshot) : Board where
  agents := s.agents
  tasks := s.tasks
  workflowStatus := s.teamWorkflowStatus.getD (js "INITIAL")
  metadata := s.metadata
  topic := s.topic
  controlPlane := s.controlPlane

/-! ### Items -/

theorem keyed_empty (idKey : JsString) : Keyed idKey .empty :=
  fun _ he => absurd he (by simp [OrderedMap.empty])

/-- Writing an entry keeps the others as they are. -/
theorem Keyed.set {idKey : JsString} {map : OrderedMap JsString Fields} (h : Keyed idKey map)
    {id : JsString} {item : Fields} (hid : textField item idKey = some id) (hne : id ≠ []) :
    Keyed idKey (map.set id item) := by
  intro e he
  have hget : (map.set id item).get e.1 = some e.2 := OrderedMap.get_eq_some.mpr he
  by_cases hk : e.1 = id
  · rw [hk, OrderedMap.get_set_self] at hget
    obtain rfl : item = e.2 := Option.some.inj hget
    rw [hk]
    exact ⟨hid, hne⟩
  · rw [OrderedMap.get_set_ne map item hk] at hget
    exact h e (OrderedMap.get_eq_some.mp hget)

/-- Fields written over others win. -/
theorem textField_merge {old item : Fields} {k : JsString} {s : JsString}
    (h : textField item k = some s) : textField (old.merge item) k = some s := by
  have hget : ∃ v, item.get k = some v := by
    unfold textField at h
    cases hv : item.get k with
    | none => rw [hv] at h; exact absurd h (by simp)
    | some v => exact ⟨v, rfl⟩
  obtain ⟨v, hv⟩ := hget
  have hmerge : (old.merge item).get k = some v := OrderedMap.get_merge_of_get hv
  unfold textField at h ⊢
  rw [hmerge]
  rw [hv] at h
  exact h

/-- The two merges of one item are the same when it names its id. -/
theorem applyItem_eq {idKey : JsString} {item : Fields} (h : HasId idKey item)
    (map : OrderedMap JsString Fields) :
    ∃ id, textField item idKey = some id ∧ id ≠ [] ∧
      StateSnapshot.applyItem idKey map item
        = map.set id (((map.get id).getD .empty).merge item) ∧
      Board.applyItem idKey map item = map.set id (((map.get id).getD .empty).merge item) := by
  obtain ⟨id, hid, hne⟩ := h
  refine ⟨id, hid, hne, ?_, ?_⟩
  · unfold StateSnapshot.applyItem
    rw [hid]
  · obtain ⟨u, rest, rfl⟩ := List.exists_cons_of_ne_nil hne
    unfold Board.applyItem
    rw [hid]

/-- **The two merges of a list of items are the same, and keep ids and items together.** -/
theorem applyItems_eq {idKey : JsString} {items : List Fields}
    (hitems : ∀ item ∈ items, HasId idKey item) {map : OrderedMap JsString Fields}
    (hmap : Keyed idKey map) :
    items.foldl (Board.applyItem idKey) map = items.foldl (StateSnapshot.applyItem idKey) map ∧
      Keyed idKey (items.foldl (StateSnapshot.applyItem idKey) map) := by
  induction items generalizing map with
  | nil => exact ⟨rfl, hmap⟩
  | cons item rest ih =>
      obtain ⟨id, hid, hne, hgateway, hboard⟩ := applyItem_eq (hitems item (by simp)) map
      simp only [List.foldl_cons, hgateway, hboard]
      exact ih (fun x hx => hitems x (by simp [hx])) (hmap.set (textField_merge hid) hne)

/-- A board that has some of the entries already and gets them all. -/
theorem foldl_values {idKey : JsString} {es : List (JsString × Fields)}
    (hes : ∀ e ∈ es, textField e.2 idKey = some e.1 ∧ e.1 ≠ [])
    {map : OrderedMap JsString Fields}
    (hmap : ∀ e ∈ es, (map.get e.1).getD .empty = e.2 ∨ (map.get e.1) = none)
    (hnodup : (es.map Prod.fst).Nodup) :
    (es.map Prod.snd).foldl (Board.applyItem idKey) map = map.setAll es := by
  induction es generalizing map with
  | nil => rfl
  | cons e rest ih =>
      obtain ⟨hid, hne⟩ := hes e (by simp)
      obtain ⟨id, hid', -, -, hboard⟩ := applyItem_eq ⟨e.1, hid, hne⟩ map
      obtain rfl : id = e.1 := Option.some.inj (hid'.symm.trans hid)
      have hmerge : ((map.get e.1).getD .empty).merge e.2 = e.2 := by
        rcases hmap e (by simp) with h | h
        · rw [h, OrderedMap.merge_self]
        · rw [h, Option.getD_none, OrderedMap.merge_empty_left]
      rw [List.map_cons, List.nodup_cons] at hnodup
      rw [List.map_cons, List.foldl_cons, hboard, hmerge]
      refine ih (fun x hx => hes x (by simp [hx])) (fun x hx => ?_) hnodup.2
      have hxe : x.1 ≠ e.1 := fun h => hnodup.1 (h ▸ List.mem_map_of_mem hx)
      rw [OrderedMap.get_set_ne map e.2 hxe]
      exact hmap x (by simp [hx])

theorem applyItems_valuesOf {idKey : JsString} {map : OrderedMap JsString Fields}
    (h : Keyed idKey map) {start : OrderedMap JsString Fields}
      (hstart : start = .empty ∨ start = map) :
    Board.applyItems (StateSnapshot.valuesOf map) idKey start = map := by
  have hvalues : (StateSnapshot.valuesOf map).getD [] = map.entries.map Prod.snd := by
    unfold StateSnapshot.valuesOf
    by_cases hnil : map.entries = []
    · rw [if_pos hnil, hnil]
      rfl
    · rw [if_neg hnil]
      rfl
  unfold Board.applyItems
  rw [hvalues]
  rcases hstart with rfl | rfl
  · rw [foldl_values h (fun _ _ => .inr rfl) map.nodup]
    exact OrderedMap.merge_empty_left map
  · rw [foldl_values h (fun e he => .inl ?_) start.nodup]
    · exact OrderedMap.merge_self start
    · rw [OrderedMap.get_eq_some.mpr he]
      rfl

/-! ### The snapshot and the board -/

theorem topicOf_of_hasTopic {inputs : Fields} (h : HasTopic inputs) (old old' : JsString) :
    Board.topicOf old (some inputs) = Board.topicOf old' (some inputs) := by
  obtain ⟨topic, htopic, hne⟩ := h
  obtain ⟨u, rest, rfl⟩ := List.exists_cons_of_ne_nil hne
  unfold Board.topicOf
  simp only [Option.bind_some, htopic]

/-- The topic of merged inputs is the topic of the new ones. -/
theorem topicOf_merge {inputs : Fields} (h : HasTopic inputs) (old : JsString) (before : Fields) :
    Board.topicOf old (some (before.merge inputs)) = Board.topicOf old (some inputs) := by
  obtain ⟨topic, htopic, hne⟩ := h
  unfold Board.topicOf
  simp only [Option.bind_some, htopic, textField_merge htopic]

/-- The two ways of counting an acknowledgement are the same. -/
theorem applyControlAck_eq {ack : ControlAck} (h : ack.reason ≠ some []) (plane : ControlPlane) :
    Board.applyControlAck plane ack = StateSnapshot.applyAck plane ack := by
  have hreason : ack.reason.filter (· ≠ []) = ack.reason := by
    cases hr : ack.reason with
    | none => rfl
    | some r =>
        have hne : r ≠ [] := fun hnil => h (by rw [hr, hnil])
        simp [Option.filter, hne]
  have hlatest : Board.latestStop plane ack
      = StateSnapshot.latestStop plane (StateSnapshot.stopOfAck ack.toLastStop) := by
    unfold Board.latestStop StateSnapshot.latestStop
    rw [hreason]
    cases plane.lastStop with
    | none => rfl
    | some last => by_cases hlt : last.issuedAt < ack.issuedAt <;> simp
      [StateSnapshot.stopOfAck, hlt]
  unfold Board.applyControlAck StateSnapshot.applyAck
  rw [hlatest]
  simp only [and_comm]
  rfl

/-- The control plane of the snapshot follows an event as the board's does. -/
theorem applyControl_eq {d : StateDelta} (h : d.WellFormed) (s : StateSnapshot) :
    Board.applyControl s.controlPlane d = (s.applyControl d).controlPlane := by
  unfold Board.applyControl StateSnapshot.applyControl
  rw [h.controlPlane, Option.none_or]
  cases hack : d.control with
  | none => cases hplane : s.controlPlane <;> exact hplane.symm
  | some ack =>
      cases hplane : s.controlPlane with
      | none => exact hplane.symm
      | some plane =>
          show some (Board.applyControlAck plane ack) = some (StateSnapshot.applyAck plane ack)
          rw [applyControlAck_eq (h.reason ack hack)]

theorem applyControl_frame (s : StateSnapshot) (d : StateDelta) :
    s.applyControl d = { s with controlPlane := (s.applyControl d).controlPlane } := by
  unfold StateSnapshot.applyControl
  split <;> rfl

/-- A run that starts anew clears the same things on both sides. -/
theorem view_applyStatus {d : StateDelta} (h : d.teamWorkflowStatus ≠ some [])
    (s : StateSnapshot) : s.view.applyStatus d = (s.applyStatusUpdate d).view := by
  have hinitial : terminal (js "INITIAL") = false := by decide
  have hterminal : s.teamWorkflowStatus.any terminal = terminal s.view.workflowStatus := by
    show _ = terminal (s.teamWorkflowStatus.getD (js "INITIAL"))
    cases s.teamWorkflowStatus with
    | none => exact hinitial.symm
    | some status => rfl
  unfold Board.applyStatus StateSnapshot.applyStatusUpdate
  cases hstatus : d.teamWorkflowStatus with
  | none => rfl
  | some status =>
      cases status with
      | nil => exact absurd hstatus h
      | cons u rest =>
          dsimp only
          rw [hterminal]
          by_cases hrestart : u :: rest = js "RUNNING" ∧ terminal s.view.workflowStatus = true
          · rw [if_pos hrestart, if_pos hrestart]
            rfl
          · rw [if_neg hrestart, if_neg hrestart]
            rfl

theorem applyStatusUpdate_frame (s : StateSnapshot) (d : StateDelta) :
    (s.applyStatusUpdate d).agents = s.agents ∧
      (s.applyStatusUpdate d).controlPlane = s.controlPlane ∧
      ((s.applyStatusUpdate d).tasks = s.tasks ∨ (s.applyStatusUpdate d).tasks = .empty) ∧
      ((s.applyStatusUpdate d).inputs = s.inputs ∨ (s.applyStatusUpdate d).inputs = none) ∧
      ((s.applyStatusUpdate d).teamWorkflowStatus = s.teamWorkflowStatus ∨
        (s.applyStatusUpdate d).teamWorkflowStatus = d.teamWorkflowStatus) := by
  unfold StateSnapshot.applyStatusUpdate
  cases hstatus : d.teamWorkflowStatus with
  | none => exact ⟨rfl, rfl, .inl rfl, .inl rfl, .inl rfl⟩
  | some status =>
      dsimp only
      split
      · exact ⟨rfl, rfl, .inr rfl, .inr rfl, .inr rfl⟩
      · exact ⟨rfl, rfl, .inl rfl, .inl rfl, .inr rfl⟩

/-- The status update keeps the snapshot well formed. -/
theorem StateSnapshot.WellFormed.applyStatusUpdate {s : StateSnapshot} (h : s.WellFormed)
    {d : StateDelta} (hd : d.teamWorkflowStatus ≠ some []) :
    (s.applyStatusUpdate d).WellFormed := by
  obtain ⟨hagents, -, htasks, hinputs, hstatus⟩ := applyStatusUpdate_frame s d
  refine ⟨?_, ?_, ?_, ?_⟩
  · rcases hstatus with h' | h' <;> rw [h']
    · exact h.status
    · exact hd
  · rw [hagents]
    exact h.agents
  · rcases htasks with h' | h' <;> rw [h']
    · exact h.tasks
    · exact keyed_empty _
  · rcases hinputs with h' | h' <;> rw [h']
    · exact h.inputs
    · simp

theorem hasTopic_mergeFields {old new : Option Fields} (hold : ∀ fields ∈ old, HasTopic fields)
    (hnew : ∀ fields ∈ new, HasTopic fields) :
    ∀ fields ∈ StateSnapshot.mergeFields old new, HasTopic fields := by
  cases new with
  | none => exact hold
  | some fields =>
      intro merged hmerged
      obtain rfl := Option.some.inj hmerged
      obtain ⟨topic, htopic, hne⟩ := hnew fields rfl
      exact ⟨topic, textField_merge htopic, hne⟩

/-- The topic of the merged inputs is the one the board takes. -/
theorem topicOf_mergeFields {old new : Option Fields} (hnew : ∀ fields ∈ new, HasTopic fields) :
    Board.topicOf (Board.topicOf [] old) new
      = Board.topicOf [] (StateSnapshot.mergeFields old new) := by
  cases new with
  | none => rfl
  | some fields =>
      show _ = Board.topicOf [] (some ((old.getD .empty).merge fields))
      rw [topicOf_merge (hnew fields rfl)]
      exact topicOf_of_hasTopic (hnew fields rfl) _ _

theorem applyMapDelta_eq {idKey : JsString} {items : Option (List Fields)}
    (hitems : ∀ l ∈ items, ∀ item ∈ l, HasId idKey item) {map : OrderedMap JsString Fields}
    (hmap : Keyed idKey map) :
    Board.applyItems items idKey map = StateSnapshot.applyMapDelta items idKey map ∧
      Keyed idKey (StateSnapshot.applyMapDelta items idKey map) := by
  cases items with
  | none => exact ⟨rfl, hmap⟩
  | some l => exact applyItems_eq (hitems l rfl) hmap

/-- **A board that shows the snapshot and gets a delta shows the next snapshot.** -/
theorem view_applyDelta {s : StateSnapshot} (hs : s.WellFormed) {d : StateDelta}
    (hd : d.WellFormed) :
    s.view.applyDelta d = (s.applyToSnapshot d).view ∧ (s.applyToSnapshot d).WellFormed := by
  have hs' : (s.applyStatusUpdate d).WellFormed := hs.applyStatusUpdate hd.status
  have hframe := applyControl_frame (s.applyStatusUpdate d) d
  obtain ⟨hagents, hkeyedAgents⟩ := applyMapDelta_eq hd.agents hs'.agents
  obtain ⟨htasks, hkeyedTasks⟩ := applyMapDelta_eq hd.tasks hs'.tasks
  unfold Board.applyDelta StateSnapshot.applyToSnapshot
  rw [view_applyStatus hd.status, hframe]
  refine ⟨?_, hs'.status, hkeyedAgents, hkeyedTasks, hasTopic_mergeFields hs'.inputs hd.inputs⟩
  show Board.mk _ _ _ _ _ _ = Board.mk _ _ _ _ _ _
  congr 1
  · exact topicOf_mergeFields hd.inputs
  · exact applyControl_eq hd _

/-! ### Joining -/

theorem topicOf_snapshot {s : StateSnapshot} (hs : s.WellFormed) {old : JsString}
    (hold : old = [] ∨ old = s.topic) : Board.topicOf old s.inputs = s.topic := by
  unfold StateSnapshot.topic at hold ⊢
  cases hinputs : s.inputs with
  | none =>
      rw [hinputs] at hold
      rcases hold with rfl | rfl <;> rfl
  | some fields => exact topicOf_of_hasTopic (hs.inputs fields hinputs) _ _

/-- **A board that has reset, or shows the snapshot already, and applies it shows it.** -/
theorem view_buildSnapshot {s : StateSnapshot} (hs : s.WellFormed) {b : Board}
    (hb : b = Board.initialState ∨ b = s.view) : b.applyDelta s.buildSnapshot = s.view := by
  have hstatus : (b.applyStatus s.buildSnapshot)
      = { b with workflowStatus := s.teamWorkflowStatus.getD (js "INITIAL") } := by
    have hnot : ¬ (s.teamWorkflowStatus = some (js "RUNNING") ∧
        terminal b.workflowStatus = true) := by
      rintro ⟨hrunning, hterminal⟩
      have hfalse : terminal b.workflowStatus = false := by
        rcases hb with rfl | rfl
        · show terminal (js "INITIAL") = false
          decide
        · show terminal (s.teamWorkflowStatus.getD (js "INITIAL")) = false
          rw [hrunning]
          decide
      rw [hfalse] at hterminal
      exact absurd hterminal (by simp)
    have hnone : s.teamWorkflowStatus = none → b.workflowStatus = js "INITIAL" := by
      intro h
      rcases hb with rfl | rfl
      · rfl
      · show s.teamWorkflowStatus.getD (js "INITIAL") = _
        rw [h]
        rfl
    have hfield : s.buildSnapshot.teamWorkflowStatus = s.teamWorkflowStatus := rfl
    unfold Board.applyStatus
    rw [hfield]
    cases hst : s.teamWorkflowStatus with
    | none =>
        show b = { b with workflowStatus := js "INITIAL" }
        rw [← hnone hst]
    | some status =>
        cases status with
        | nil => exact absurd hst hs.status
        | cons u rest =>
            rw [hst] at hnot
            dsimp only
            rw [if_neg (fun h => hnot ⟨congrArg some h.1, h.2⟩)]
            rfl
  have hcontrol : Board.applyControl b.controlPlane s.buildSnapshot = s.controlPlane := by
    show s.controlPlane.or b.controlPlane = s.controlPlane
    rcases hb with rfl | rfl
    · exact Option.or_none
    · exact Option.or_self
  unfold Board.applyDelta
  rw [hstatus]
  show Board.mk _ _ _ _ _ _ = Board.mk _ _ _ _ _ _
  congr 1
  · exact applyItems_valuesOf hs.agents (hb.imp (fun h => by rw [h]; rfl) fun h => by rw [h]; rfl)
  · exact applyItems_valuesOf hs.tasks (hb.imp (fun h => by rw [h]; rfl) fun h => by rw [h]; rfl)
  · have hfield : s.buildSnapshot.metadata = s.metadata := rfl
    rw [hfield]
    cases hm : s.metadata with
    | none =>
        rcases hb with rfl | rfl
        · rfl
        · exact hm
    | some fields =>
        dsimp only
        rcases hb with rfl | rfl
        · exact congrArg some (OrderedMap.merge_empty_left fields)
        · have hold : s.view.metadata = some fields := hm
          rw [hold]
          exact congrArg some (OrderedMap.merge_self fields)
  · exact topicOf_snapshot hs (hb.imp (fun h => by rw [h]; rfl) fun h => by rw [h]; rfl)

/-- The stop the gateway notes is the one it tells the boards. -/
theorem view_noteStop (s : StateSnapshot) (cmd : LastStop) :
    (s.noteStop cmd).2.toList.foldl Board.applyDelta s.view = (s.noteStop cmd).1.view ∧
      (s.WellFormed → (s.noteStop cmd).1.WellFormed) := by
  unfold StateSnapshot.noteStop
  cases s.controlPlane with
  | none => exact ⟨rfl, id⟩
  | some plane =>
      dsimp only
      split
      · exact ⟨rfl, id⟩
      · exact ⟨rfl, fun h => ⟨h.status, h.agents, h.tasks, h.inputs⟩⟩

/-- One event keeps a board that shows the snapshot up to date. -/
theorem view_step {s : StateSnapshot} (hs : s.WellFormed) {e : GatewayEvent} (he : e.WellFormed) :
    (s.step e).2.toList.foldl Board.applyDelta s.view = (s.step e).1.view ∧
      (s.step e).1.WellFormed := by
  cases e with
  | delta d => exact view_applyDelta hs he
  | noteStop cmd => exact ⟨(view_noteStop s cmd).1, (view_noteStop s cmd).2 hs⟩

/-- **A board that shows the snapshot keeps showing it, however many events follow.** -/
theorem view_run {es : List GatewayEvent} (hes : ∀ e ∈ es, e.WellFormed) {s : StateSnapshot}
    (hs : s.WellFormed) :
    (s.broadcasts es).foldl Board.applyDelta s.view = (s.after es).view ∧
      (s.after es).WellFormed := by
  induction es generalizing s with
  | nil => exact ⟨rfl, hs⟩
  | cons e rest ih =>
      obtain ⟨hview, hwf⟩ := view_step hs (hes e (by simp))
      have hrest := ih (fun x hx => hes x (by simp [hx])) hwf
      refine ⟨?_, hrest.2⟩
      show ((s.step e).2.toList ++ (s.step e).1.broadcasts rest).foldl Board.applyDelta s.view = _
      rw [List.foldl_append, hview]
      exact hrest.1

theorem initial_wellFormed (control : Bool) : (StateSnapshot.initial control).WellFormed :=
  ⟨by simp [StateSnapshot.initial], keyed_empty _, keyed_empty _, by simp [StateSnapshot.initial]⟩

theorem after_append (s : StateSnapshot) (es fs : List GatewayEvent) :
    s.after (es ++ fs) = (s.after es).after fs := List.foldl_append

/-- A board that joins shows the snapshot of the end. -/
theorem rejoin_eq (b : Board) (control : Bool) {es fs : List GatewayEvent}
    (hes : ∀ e ∈ es ++ fs, e.WellFormed) :
    b.rejoin ((StateSnapshot.initial control).after es) fs
        = ((StateSnapshot.initial control).after (es ++ fs)).view ∧
      ((StateSnapshot.initial control).after (es ++ fs)).WellFormed := by
  have hjoin :=
    view_run (fun e he => hes e (List.mem_append_left _ he)) (initial_wellFormed control)
  have hrest := view_run (fun e he => hes e (List.mem_append_right _ he)) hjoin.2
  rw [after_append]
  refine ⟨?_, hrest.2⟩
  have hfirst : b.resetState.applyDelta ((StateSnapshot.initial control).after es).buildSnapshot
      = ((StateSnapshot.initial control).after es).view := view_buildSnapshot hjoin.2 (.inl rfl)
  unfold Board.rejoin
  rw [hfirst]
  exact hrest.1

/-- **When a board joined does not matter.**  Two boards, of which one joined after `j`
and one after `k` events, show the same after all of them, and so does either one that is
sent the snapshot again. -/
theorem rejoin_independent (control : Bool) (es : List GatewayEvent)
    (hes : ∀ e ∈ es, e.WellFormed) (j k : ℕ) (b b' : Board) :
    b.rejoin ((StateSnapshot.initial control).after (es.take j)) (es.drop j)
        = b'.rejoin ((StateSnapshot.initial control).after (es.take k)) (es.drop k) ∧
      (b.rejoin ((StateSnapshot.initial control).after (es.take j)) (es.drop j)).applyDelta
          ((StateSnapshot.initial control).after es).buildSnapshot
        = b.rejoin ((StateSnapshot.initial control).after (es.take j)) (es.drop j) := by
  have hsplit : ∀ i, ∀ e ∈ es.take i ++ es.drop i, e.WellFormed := by
    intro i
    rw [List.take_append_drop]
    exact hes
  obtain ⟨hj, hwf⟩ := rejoin_eq b control (hsplit j)
  have hk := (rejoin_eq b' control (hsplit k)).1
  rw [List.take_append_drop] at hj hk hwf
  rw [hj, hk]
  exact ⟨rfl, view_buildSnapshot hwf (.inr rfl)⟩

/-- A run that ended with a task on the board, a new run with another, and a stop. -/
def restartEvents : List GatewayEvent :=
  let task (id : String) : Fields := OrderedMap.empty.set (js "taskId") (.str (js id))
  [.delta ⟨some (js "FINISHED"), none, some [task "task-1"], none, none, none, none⟩,
    .delta ⟨some (js "RUNNING"), none, some [task "task-2"], none, none, none, none⟩,
    .noteStop ⟨js "stop-1", Decimal.ofInt 5, js "operator", none⟩]

theorem restartEvents_wellFormed : ∀ e ∈ restartEvents, e.WellFormed := by
  have hid : ∀ id : String, js id ≠ [] →
      HasId (js "taskId") (OrderedMap.empty.set (js "taskId") (.str (js id))) := by
    intro id hne
    refine ⟨js id, ?_, hne⟩
    unfold textField
    rw [OrderedMap.get_set_self]
  unfold restartEvents
  simp only [List.mem_cons, List.not_mem_nil, or_false, forall_eq_or_imp, forall_eq]
  refine ⟨⟨by decide, by simp, ?_, by simp, by simp, rfl⟩,
    ⟨by decide, by simp, ?_, by simp, by simp, rfl⟩, trivial⟩
  · simp only [Option.mem_some_iff, forall_eq', List.mem_singleton, forall_eq]
    exact hid "task-1" (by decide)
  · simp only [Option.mem_some_iff, forall_eq', List.mem_singleton, forall_eq]
    exact hid "task-2" (by decide)

theorem rejoin_independent_restart :
    Board.initialState.rejoin ((StateSnapshot.initial true).after (restartEvents.take 1))
          (restartEvents.drop 1)
        = Board.initialState.rejoin ((StateSnapshot.initial true).after (restartEvents.take 2))
          (restartEvents.drop 2) :=
  (rejoin_independent true restartEvents restartEvents_wellFormed 1 2 _ _).1

end Kaiban
