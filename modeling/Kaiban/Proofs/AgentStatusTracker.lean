/-
The status a client is told of and the one the boards show.

The tracker and the gateway's snapshot read the same deltas and keep them in different ways:
the tracker has one status for each agent, the snapshot merges all the fields.  An entry
without a status leaves both as they were, so as long as every status that is there is a text,
the tracker has what the snapshot shows.
-/
import Kaiban.AgentStatusTracker
import Kaiban.Lib.Json.Ordered
import Kaiban.Proofs.StoreMirror

open JsString

namespace Kaiban

/-! ### Fields -/

theorem get_entries (fields : Fields) (k : JsString) :
    Json.get fields.entries k = fields.get k := by
  refine Option.ext fun v => ?_
  rw [Json.get_eq_some_iff fields.nodup, OrderedMap.get_eq_some]

theorem get_setAll_of_notMem {k : JsString} :
    ∀ (es : List (JsString × Json)) (m : Fields), k ∉ es.map Prod.fst →
      (m.setAll es).get k = m.get k := by
  intro es
  induction es with
  | nil => intro m _; rfl
  | cons e rest ih =>
      intro m h
      rw [List.map_cons, List.mem_cons, not_or] at h
      show ((m.set e.1 e.2).setAll rest).get k = m.get k
      rw [ih _ h.2, OrderedMap.get_set_ne m e.2 h.1]

/-- A merge keeps the fields that the new item does not have. -/
theorem get_merge_of_none {old item : Fields} {k : JsString} (h : item.get k = none) :
    (old.merge item).get k = old.get k :=
  get_setAll_of_notMem _ old (OrderedMap.get_eq_none.mp h)

namespace AgentStatusTracker

variable {t : AgentStatusTracker} {message : StateDelta → Json}

/-! ### One item, one delta -/

/-- An item whose status is a text, if it has one. -/
def HasTextStatus (item : Fields) : Prop :=
  item.get (js "status") = none ∨ ∃ s, item.get (js "status") = some (.str s)

/-- The status that is shown of an agent. -/
def shownStatus (agents : OrderedMap JsString Fields) (agentId : JsString) : Option JsString :=
  (agents.get agentId).bind fun shown => textField shown (js "status")

/-- The tracker has the statuses that are shown. -/
def Agrees (t : AgentStatusTracker) (agents : OrderedMap JsString Fields) : Prop :=
  ∀ agentId, t.statuses.get agentId = (shownStatus agents agentId).map knownStatus

theorem textField_eq_some {item : Fields} {k s : JsString} :
    textField item k = some s ↔ item.get k = some (.str s) := by
  unfold textField
  split
  · next v hv => simp [hv]
  · next hother =>
      refine iff_of_false (by simp) fun h => hother s h

/-- An entry with both texts is recorded. -/
theorem recordAgent_some {item : Fields} {agentId status : JsString}
    (hid : textField item (js "agentId") = some agentId)
    (hstatus : textField item (js "status") = some status) :
    t.recordAgent (.obj item.entries) = ⟨t.statuses.set agentId (knownStatus status)⟩ := by
  unfold recordAgent
  dsimp only
  rw [get_entries, get_entries, textField_eq_some.mp hid, textField_eq_some.mp hstatus]

/-- An entry without one of them is not. -/
theorem recordAgent_none {item : Fields}
    (h : textField item (js "agentId") = none ∨ textField item (js "status") = none) :
    t.recordAgent (.obj item.entries) = t := by
  unfold recordAgent
  dsimp only
  rw [get_entries, get_entries]
  split
  · next agentId status hid hstatus =>
      rcases h with hnone | hnone
      · exact absurd (hnone.symm.trans (textField_eq_some.mpr hid)) (by simp)
      · exact absurd (hnone.symm.trans (textField_eq_some.mpr hstatus)) (by simp)
  · rfl

theorem Agrees.record {agents : OrderedMap JsString Fields} (h : t.Agrees agents) {item : Fields}
    (hitem : HasTextStatus item) : Agrees (t.recordAgent (.obj item.entries))
      (StateSnapshot.applyItem (js "agentId") agents item) := by
  intro x
  unfold StateSnapshot.applyItem
  cases hid : textField item (js "agentId") with
  | none =>
      rw [recordAgent_none (.inl hid)]
      exact h x
  | some agentId =>
      dsimp only
      unfold shownStatus
      rcases hitem with hnone | ⟨status, hstatus⟩
      · -- the status that was shown stays
        have htext : textField item (js "status") = none := by
          unfold textField
          rw [hnone]
        rw [recordAgent_none (.inr htext), h x]
        by_cases hx : x = agentId
        · rw [hx, OrderedMap.get_set_self, Option.bind_some]
          unfold shownStatus textField
          rw [get_merge_of_none hnone]
          cases agents.get agentId <;> rfl
        · rw [OrderedMap.get_set_ne agents _ hx]
          rfl
      · rw [recordAgent_some hid (textField_eq_some.mpr hstatus)]
        by_cases hx : x = agentId
        · have hmerged := OrderedMap.get_merge_of_get
            (m := (agents.get agentId).getD .empty) hstatus
          rw [hx, OrderedMap.get_set_self, OrderedMap.get_set_self, Option.bind_some,
            textField_eq_some.mpr hmerged]
          rfl
        · rw [OrderedMap.get_set_ne t.statuses _ hx, OrderedMap.get_set_ne agents _ hx]
          exact h x

/-- By induction on the items. -/
theorem Agrees.records (items : List Fields) : ∀ {t : AgentStatusTracker}
    {agents : OrderedMap JsString Fields}, t.Agrees agents → (∀ x ∈ items, HasTextStatus x) →
    Agrees ((items.map fun item => Json.obj item.entries).foldl recordAgent t)
      (items.foldl (StateSnapshot.applyItem (js "agentId")) agents) := by
  induction items with
  | nil => intro t agents h _; exact h
  | cons item rest ih =>
      intro t agents h hitems
      rw [List.map_cons, List.foldl_cons, List.foldl_cons]
      exact ih (h.record (hitems item (by simp))) fun x hx => hitems x (by simp [hx])

/-- A message is an object and has the agents of its delta. -/
def Carries (message : StateDelta → Json) : Prop :=
  ∀ d, ∃ ms, message d = .obj ms ∧ Json.get ms (js "agents") =
    d.agents.map fun items => .arr (items.map fun item => .obj item.entries)

/-- Every status of a delta is a text. -/
def TextStatuses (d : StateDelta) : Prop := ∀ item ∈ d.agents.getD [], HasTextStatus item

theorem Agrees.onMessage {agents : OrderedMap JsString Fields} (h : t.Agrees agents)
    (hcarries : Carries message) {d : StateDelta} (hd : TextStatuses d) :
    Agrees (t.onMessage (some (message d)))
      (StateSnapshot.applyMapDelta d.agents (js "agentId") agents) := by
  obtain ⟨ms, hms, hsent⟩ := hcarries d
  unfold AgentStatusTracker.onMessage StateSnapshot.applyMapDelta TextStatuses at *
  rw [hms]
  dsimp only
  rw [hsent]
  cases hagents : d.agents with
  | none => exact h
  | some items =>
      rw [hagents] at hd
      exact h.records items hd

theorem Agrees.onEvent {s : StateSnapshot} (h : t.Agrees s.agents) (hcarries : Carries message)
    {e : GatewayEvent} (he : ∀ d, e = .delta d → TextStatuses d) :
    Agrees (t.onEvent message e) (s.step e).1.agents := by
  cases e with
  | delta d =>
      show Agrees (t.onMessage (some (message d))) (s.applyToSnapshot d).agents
      rw [StateSnapshot.agents_applyToSnapshot]
      exact h.onMessage hcarries (he d rfl)
  | noteStop cmd =>
      -- a stop that is noted leaves the agents alone
      have hsame : (s.noteStop cmd).1.agents = s.agents := by
        unfold StateSnapshot.noteStop
        split
        · rfl
        · split <;> rfl
      show Agrees t (s.noteStop cmd).1.agents
      rw [hsame]
      exact h

theorem Agrees.events (es : List GatewayEvent) : ∀ {t : AgentStatusTracker} {s : StateSnapshot},
    t.Agrees s.agents → Carries message → (∀ d, .delta d ∈ es → TextStatuses d) →
    Agrees (es.foldl (AgentStatusTracker.onEvent message) t) (s.after es).agents := by
  induction es with
  | nil => intro t s h _ _; exact h
  | cons e rest ih =>
      intro t s h hcarries htexts
      exact ih (h.onEvent hcarries fun d hd => htexts d (by simp [hd])) hcarries
        fun d hd => htexts d (by simp [hd])

/-- **A client is told the status the boards show.**  After any events of the gateway the
status of an agent is the one in the snapshot, or `IDLE` if that is none the tracker knows or
there is none, and an agent was seen just when the snapshot shows a status of it. -/
theorem status_shown (hcarries : Carries message) (control : Bool) {es : List GatewayEvent}
    (htexts : ∀ d, .delta d ∈ es → TextStatuses d) (agentId : JsString) :
    (after message es).getStatus agentId =
        ((shownStatus ((StateSnapshot.initial control).after es).agents agentId).map
          knownStatus).getD .idle ∧
      ((after message es).hasSeen agentId = true ↔
        ∃ status, shownStatus ((StateSnapshot.initial control).after es).agents agentId =
          some status) := by
  have hinit : init.Agrees (StateSnapshot.initial control).agents := fun _ => rfl
  have hagrees : Agrees (after message es) ((StateSnapshot.initial control).after es).agents :=
    hinit.events es hcarries htexts
  unfold getStatus hasSeen
  rw [hagrees agentId]
  refine ⟨rfl, ?_⟩
  rw [Option.isSome_map, Option.isSome_iff_exists]

/-- A message with the agents of its delta. -/
def agentsMessage (d : StateDelta) : Json :=
  .obj ((d.agents.map fun items =>
    (js "agents", Json.arr (items.map fun item => .obj item.entries))).toList)

theorem agentsMessage_carries : Carries agentsMessage := by
  intro d
  refine ⟨_, rfl, ?_⟩
  cases d.agents with
  | none => rfl
  | some items => rfl

/-- An agent that thinks, then one of its fields and a status that is unknown. -/
def statusEvents : List GatewayEvent :=
  [.delta ⟨none,
      some [fieldsOf [(js "agentId", .str (js "a")), (js "status", .str (js "THINKING"))]],
      none, none, none, none, none⟩,
    .delta ⟨none,
      some [fieldsOf [(js "agentId", .str (js "a")), (js "name", .str (js "A"))],
        fieldsOf [(js "agentId", .str (js "b")), (js "status", .str (js "PAUSED"))]],
      none, none, none, none, none⟩]

theorem status_shown_thinking :
    shownStatus ((StateSnapshot.initial false).after statusEvents).agents (js "a")
        = some (js "THINKING") ∧
      (after agentsMessage statusEvents).getStatus (js "a") = .thinking ∧
      (after agentsMessage statusEvents).getStatus (js "b") = .idle ∧
      (after agentsMessage statusEvents).hasSeen (js "b") = true := by
  have htexts : ∀ d, .delta d ∈ statusEvents → TextStatuses d := by
    intro d hd
    simp only [statusEvents, List.mem_cons, GatewayEvent.delta.injEq, List.not_mem_nil,
      or_false] at hd
    rcases hd with rfl | rfl
    · intro item hitem
      rw [List.mem_singleton.mp hitem]
      exact .inr ⟨_, rfl⟩
    · intro item hitem
      rcases List.mem_cons.mp hitem with rfl | hrest
      · exact .inl rfl
      · rw [List.mem_singleton.mp hrest]
        exact .inr ⟨_, rfl⟩
  have htold := status_shown agentsMessage_carries false htexts
  refine ⟨rfl, (htold (js "a")).1.trans rfl, (htold (js "b")).1.trans rfl, ?_⟩
  exact (htold (js "b")).2.mpr ⟨js "PAUSED", rfl⟩

end AgentStatusTracker

end Kaiban
