/-
What the gateway shows of a KaibanJS team.

A list of the store goes out whole, so the last one that arrived decides: every field of its
items is shown as it was told, whatever was lost before.  When nothing was lost, the last one
that arrived is the list the store holds, and then the snapshot agrees with the store.
-/
import Kaiban.StoreMirror
import Kaiban.Proofs.Board

open JsString

namespace Kaiban

/-! ### The last item of an id -/

/-- The last item with an id. -/
def lastItem (idKey id : JsString) (items : List Fields) : Option Fields :=
  items.reverse.find? fun item => textField item idKey = some id

/-- A map shows every field of the items, as the last one of its id has it. -/
def ShowsItems (idKey : JsString) (items : List Fields) (map : OrderedMap JsString Fields) : Prop :=
  ∀ id item, lastItem idKey id items = some item → ∀ k v, item.get k = some v →
    ∃ shown, map.get id = some shown ∧ shown.get k = some v

namespace StateSnapshot

variable {idKey id : JsString} {item : Fields} {items : List Fields}
variable {map : OrderedMap JsString Fields}

theorem get_applyItem_ne (h : textField item idKey ≠ some id) :
    (applyItem idKey map item).get id = map.get id := by
  unfold applyItem
  split
  · next other hother =>
      refine OrderedMap.get_set_ne map _ fun heq => h ?_
      rw [hother, heq]
  · rfl

theorem get_applyItem_self (h : textField item idKey = some id) :
    (applyItem idKey map item).get id = some (((map.get id).getD .empty).merge item) := by
  unfold applyItem
  rw [h]
  exact OrderedMap.get_set_self map id _

/-- By induction on the items, from the last one back. -/
theorem shows_applyMapDelta (items : List Fields) (map : OrderedMap JsString Fields) :
    ShowsItems idKey items (applyMapDelta (some items) idKey map) := by
  unfold applyMapDelta
  rw [Option.getD_some]
  induction items using List.reverseRecOn with
  | nil =>
      intro id item hlast
      exact absurd hlast (by simp [lastItem])
  | append_singleton rest last ih =>
      intro id item hlast k v hv
      unfold lastItem at hlast
      rw [List.reverse_append, List.reverse_singleton, List.singleton_append] at hlast
      rw [List.foldl_append, List.foldl_cons, List.foldl_nil]
      by_cases hid : textField last idKey = some id
      · rw [List.find?_cons_of_pos (by simpa using hid)] at hlast
        obtain rfl := Option.some.inj hlast
        exact ⟨_, get_applyItem_self hid, OrderedMap.get_merge_of_get hv⟩
      · rw [List.find?_cons_of_neg (by simpa using hid)] at hlast
        obtain ⟨shown, hshown, hget⟩ := ih id item hlast k v hv
        exact ⟨shown, (get_applyItem_ne hid).trans hshown, hget⟩

/-- Items with other ids leave what is shown of an id. -/
theorem get_foldl_apart (items : List Fields) :
    ∀ map : OrderedMap JsString Fields, (∀ item ∈ items, textField item idKey ≠ some id) →
      (items.foldl (applyItem idKey) map).get id = map.get id := by
  induction items with
  | nil => intro map _; rfl
  | cons item rest ih =>
      intro map h
      rw [List.foldl_cons, ih _ fun x hx => h x (by simp [hx])]
      exact get_applyItem_ne (h item (by simp))

theorem shows_apart {more : Option (List Fields)} (hshows : ShowsItems idKey items map)
    (h : ∀ x ∈ more.getD [], ∀ y ∈ items, ∀ id, textField y idKey = some id →
      textField x idKey ≠ some id) : ShowsItems idKey items (applyMapDelta more idKey map) := by
  intro id item hlast k v hv
  obtain ⟨shown, hshown, hget⟩ := hshows id item hlast k v hv
  have hmem : item ∈ items := List.mem_reverse.mp (List.mem_of_find?_eq_some hlast)
  have hid : textField item idKey = some id := by simpa using List.find?_some hlast
  refine ⟨shown, ?_, hget⟩
  exact (get_foldl_apart _ map fun x hx => h x hx item hmem id hid).trans hshown

/-- The agents of the snapshot after a delta. -/
theorem agents_applyToSnapshot (s : StateSnapshot) (d : StateDelta) :
    (s.applyToSnapshot d).agents = applyMapDelta d.agents (js "agentId") s.agents := by
  unfold applyToSnapshot
  dsimp only
  rw [applyControl_frame, (applyStatusUpdate_frame s d).1]

theorem tasks_applyStatusUpdate (s : StateSnapshot) (d : StateDelta) :
    (s.applyStatusUpdate d).tasks = if s.restarts d then .empty else s.tasks := by
  unfold applyStatusUpdate restarts
  cases d.teamWorkflowStatus with
  | none => rfl
  | some status =>
      dsimp only
      by_cases hrestart : status = js "RUNNING" ∧ s.teamWorkflowStatus.any terminal = true
      · rw [if_pos hrestart, if_pos (by simp [hrestart])]
      · rw [if_neg hrestart, if_neg (by simpa using hrestart)]

/-- The tasks of the snapshot after a delta. -/
theorem tasks_applyToSnapshot (s : StateSnapshot) (d : StateDelta) :
    (s.applyToSnapshot d).tasks = applyMapDelta d.tasks (js "taskId")
      (if s.restarts d then .empty else s.tasks) := by
  unfold applyToSnapshot
  dsimp only
  rw [applyControl_frame, tasks_applyStatusUpdate]

end StateSnapshot

/-! ### The ids of what is published -/

theorem textField_fieldsOf {ms : List (JsString × Json)} {k id : JsString}
    (hmem : (k, Json.str id) ∈ ms) (hnodup : (ms.map Prod.fst).Nodup) :
    textField (fieldsOf ms) k = some id := by
  unfold textField fieldsOf
  rw [OrderedMap.get_setAll hmem hnodup]

theorem boardAgent_id {m : JsString × KaibanAgentLike} {item : Fields}
    (h : boardAgent m = some item) : textField item (js "agentId") = some m.1 := by
  unfold boardAgent at h
  obtain ⟨name, -, h⟩ := Option.bind_eq_some_iff.mp h
  obtain ⟨role, -, h⟩ := Option.bind_eq_some_iff.mp h
  obtain ⟨status, -, h⟩ := Option.bind_eq_some_iff.mp h
  rw [← Option.some.inj h]
  have hnames : [js "agentId", js "name", js "role", js "status", js "currentTaskId"].Nodup := by
    decide
  exact textField_fieldsOf (by simp) hnames

theorem taskStatusField_names (s : JsString) :
    (taskStatusField s).map Prod.fst = [js "status"] ∨ taskStatusField s = [] := by
  unfold taskStatusField
  split
  · exact .inl rfl
  · split
    · exact .inl rfl
    · split
      · exact .inr rfl
      · exact .inl rfl

theorem boardTask_id {m : JsString × KaibanTaskLike} {item : Fields}
    (h : boardTask m = some item) : textField item (js "taskId") = some m.1 := by
  unfold boardTask at h
  obtain ⟨title, -, h⟩ := Option.bind_eq_some_iff.mp h
  obtain ⟨status, -, h⟩ := Option.bind_eq_some_iff.mp h
  obtain ⟨agentId, -, h⟩ := Option.bind_eq_some_iff.mp h
  rw [← Option.some.inj h]
  refine textField_fieldsOf (by simp) ?_
  simp only [List.map_append, List.map_cons, List.map_nil]
  cases boardResult m.2.result with
  | none =>
      rw [Option.map_none, Option.toList_none, List.map_nil]
      rcases taskStatusField_names status with hs | hs
      · rw [hs]
        decide
      · rw [hs]
        decide
  | some r =>
      rw [Option.map_some, Option.toList_some, List.map_singleton]
      dsimp only
      rcases taskStatusField_names status with hs | hs
      · rw [hs]
        decide
      · rw [hs]
        decide

theorem mem_mapM {α β : Type} {f : α → Option β} {xs : List α} {ys : List β}
    (h : xs.mapM f = some ys) {y : β} (hy : y ∈ ys) : ∃ x ∈ xs, f x = some y := by
  induction xs generalizing ys with
  | nil =>
      obtain rfl : [] = ys := by simpa using h
      exact absurd hy (by simp)
  | cons x rest ih =>
      rw [List.mapM_cons] at h
      obtain ⟨z, hz, h⟩ := Option.bind_eq_some_iff.mp h
      obtain ⟨zs, hzs, h⟩ := Option.bind_eq_some_iff.mp h
      obtain rfl := Option.some.inj h
      rcases List.mem_cons.mp hy with rfl | hrest
      · exact ⟨x, by simp, hz⟩
      · obtain ⟨w, hw, hfw⟩ := ih hzs hrest
        exact ⟨w, by simp [hw], hfw⟩

/-- An array of the store whose items have ids of the team. -/
def Owned {α : Type} (own : JsString → Prop) (id : α → Option Json)
    (array : Option (StoreArray α)) : Prop :=
  ∀ arr, array = some arr → ∀ m ∈ identified id arr.items, own m.1

/-- Items that have ids of the team. -/
def OwnItems (own : JsString → Prop) (idKey : JsString) (items : List Fields) : Prop :=
  ∀ item ∈ items, ∀ id, textField item idKey = some id → own id

theorem changedPart_own {α : Type} {own : JsString → Prop} {id : α → Option Json}
    {idKey : JsString} {item : JsString × α → Option Fields}
    (hitem : ∀ m f, item m = some f → textField f idKey = some m.1)
    {state prev : Option (StoreArray α)} (hown : Owned own id state)
    {part : Option (List Fields)}
    (h : changedPart (fun items => (identified id items).mapM item) state prev = some part) :
    ∀ items, part = some items → OwnItems own idKey items := by
  intro items hitems x hx name hname
  unfold changedPart changedArray at h
  split at h
  · rw [← Option.some.inj h] at hitems
    exact absurd hitems (by simp)
  · next xs hxs =>
      split at hxs
      · exact absurd hxs (by simp)
      · obtain ⟨arr, harr, rfl⟩ := Option.map_eq_some_iff.mp hxs
        obtain ⟨ys, hys, rfl⟩ := Option.map_eq_some_iff.mp h
        obtain rfl := Option.some.inj hitems
        obtain ⟨m, hm, hfm⟩ := mem_mapM hys hx
        have hsame := (hitem m x hfm).symm.trans hname
        rw [← Option.some.inj hsame]
        exact hown arr harr m hm

namespace StoreMirror

variable {own : JsString → Prop} {s t : StoreMirror}

/-! ### What the gateway shows of what it was told -/

/-- The store and the other publishers use different ids. -/
def Apart (own : JsString → Prop) : MirrorEvent → Prop
  | .change state => Owned own KaibanAgentLike.id state.agents ∧
      Owned own KaibanTaskLike.id state.tasks
  | .other d => OwnItems (fun id => ¬ own id) (js "agentId") (d.agents.getD []) ∧
      OwnItems (fun id => ¬ own id) (js "taskId") (d.tasks.getD [])
  | .arrives | .lost => True

/-- A delta with ids of the team. -/
def OwnDelta (own : JsString → Prop) (d : StateDelta) : Prop :=
  (∀ items, d.agents = some items → OwnItems own (js "agentId") items) ∧
    ∀ items, d.tasks = some items → OwnItems own (js "taskId") items

structure Shown (own : JsString → Prop) (s : StoreMirror) : Prop where
  inFlight : ∀ d ∈ s.inFlight, OwnDelta own d
  agentsOwn : ∀ items, s.agentsTold = some items → OwnItems own (js "agentId") items
  tasksOwn : ∀ items, s.tasksTold = some items → OwnItems own (js "taskId") items
  agents : ∀ items, s.agentsTold = some items → ShowsItems (js "agentId") items s.snapshot.agents
  tasks : ∀ items, s.tasksTold = some items → ShowsItems (js "taskId") items s.snapshot.tasks

theorem init_shown (store : KaibanStoreState) (control : Bool) :
    Shown own (init store control) :=
  ⟨by simp [init], by simp [init], by simp [init], by simp [init], by simp [init]⟩

theorem toBoardDelta_own {state prev : KaibanStoreState} {d : StateDelta}
    (hagents : Owned own KaibanAgentLike.id state.agents)
    (htasks : Owned own KaibanTaskLike.id state.tasks) (h : toBoardDelta state prev = some d) :
    OwnDelta own d := by
  unfold toBoardDelta at h
  obtain ⟨agents, ha, h⟩ := Option.bind_eq_some_iff.mp h
  obtain ⟨tasks, ht, h⟩ := Option.bind_eq_some_iff.mp h
  rw [← Option.some.inj h]
  exact ⟨changedPart_own (fun _ _ => boardAgent_id) hagents ha,
    changedPart_own (fun _ _ => boardTask_id) htasks ht⟩

/-- A delta tells what the store has of a part, or it is another's and has other ids. -/
def Tells (own : JsString → Prop) (idKey : JsString) (part more : Option (List Fields)) : Prop :=
  part = none ∧ OwnItems (fun id => ¬ own id) idKey (more.getD []) ∨
    part = more ∧ ∀ items, more = some items → OwnItems own idKey items

/-- A list that is told anew is shown, and one that others do not touch stays shown. -/
theorem Tells.shows {idKey : JsString} {part more told : Option (List Fields)}
    {map : OrderedMap JsString Fields} (h : Tells own idKey part more)
    (hown : ∀ items, told = some items → OwnItems own idKey items)
    (hold : ∀ items, told = some items → ShowsItems idKey items map) :
    ∀ items, part.or told = some items →
      OwnItems own idKey items ∧
        ShowsItems idKey items (StateSnapshot.applyMapDelta more idKey map) := by
  intro items hitems
  rcases h with ⟨rfl, hother⟩ | ⟨rfl, htold⟩
  · refine ⟨hown items hitems, StateSnapshot.shows_apart (hold items hitems) ?_⟩
    intro x hx y hy id hid hsame
    exact hother x hx id hsame (hown items hitems y hy id hid)
  · cases part with
    | none => exact ⟨hown items hitems, hold items hitems⟩
    | some list =>
        obtain rfl := Option.some.inj hitems
        exact ⟨htold list rfl, StateSnapshot.shows_applyMapDelta list map⟩

theorem Shown.delivered (h : s.Shown own) {d : StateDelta} {agents tasks : Option (List Fields)}
    (hagents : Tells own (js "agentId") agents d.agents)
    (htasks : Tells own (js "taskId") tasks d.tasks) :
    (s.delivered d agents tasks).Shown own := by
  have ha := hagents.shows h.agentsOwn h.agents
  -- a run that starts anew shows no tasks, and none are told
  have hkeptOwn : ∀ items, (if s.snapshot.restarts d then none else s.tasksTold) = some items →
      OwnItems own (js "taskId") items := by
    intro items hitems
    split at hitems
    · exact absurd hitems (by simp)
    · exact h.tasksOwn items hitems
  have hkept : ∀ items, (if s.snapshot.restarts d then none else s.tasksTold) = some items →
      ShowsItems (js "taskId") items
        (if s.snapshot.restarts d then .empty else s.snapshot.tasks) := by
    intro items hitems
    split at hitems
    · exact absurd hitems (by simp)
    · next hgoes =>
        rw [if_neg hgoes]
        exact h.tasks items hitems
  have ht := htasks.shows hkeptOwn hkept
  refine ⟨h.inFlight, fun items hitems => (ha items hitems).1,
    fun items hitems => (ht items hitems).1, fun items hitems => ?_, fun items hitems => ?_⟩
  · show ShowsItems _ items (s.snapshot.applyToSnapshot d).agents
    rw [StateSnapshot.agents_applyToSnapshot]
    exact (ha items hitems).2
  · show ShowsItems _ items (s.snapshot.applyToSnapshot d).tasks
    rw [StateSnapshot.tasks_applyToSnapshot]
    exact (ht items hitems).2

theorem Shown.step (h : s.Shown own) {e : MirrorEvent} (he : Apart own e)
    (hstep : s.step e = some t) : t.Shown own := by
  cases e with
  | change state =>
      rw [StoreMirror.step] at hstep
      split at hstep
      · obtain rfl := Option.some.inj hstep
        exact ⟨h.inFlight, h.agentsOwn, h.tasksOwn, h.agents, h.tasks⟩
      · next d hd =>
          obtain rfl := Option.some.inj hstep
          refine ⟨fun x hx => ?_, h.agentsOwn, h.tasksOwn, h.agents, h.tasks⟩
          dsimp only at hx
          split at hx
          · exact h.inFlight x hx
          · rcases List.mem_append.mp hx with hold | hnew
            · exact h.inFlight x hold
            · rw [List.mem_singleton.mp hnew]
              exact toBoardDelta_own he.1 he.2 hd
  | arrives =>
      rw [StoreMirror.step] at hstep
      split at hstep
      · exact absurd hstep (by simp)
      · next d rest hflight =>
          obtain rfl := Option.some.inj hstep
          have hall := h.inFlight
          rw [hflight] at hall
          have hrest : Shown own { s with inFlight := rest } :=
            ⟨fun x hx => hall x (by simp [hx]), h.agentsOwn, h.tasksOwn, h.agents, h.tasks⟩
          obtain ⟨hagents, htasks⟩ := hall d (by simp)
          exact hrest.delivered (.inr ⟨rfl, hagents⟩) (.inr ⟨rfl, htasks⟩)
  | lost =>
      rw [StoreMirror.step] at hstep
      split at hstep
      · exact absurd hstep (by simp)
      · next d rest hflight =>
          obtain rfl := Option.some.inj hstep
          refine ⟨fun x hx => h.inFlight x ?_, h.agentsOwn, h.tasksOwn, h.agents, h.tasks⟩
          rw [hflight]
          exact List.mem_cons_of_mem d hx
  | other d =>
      obtain rfl := Option.some.inj hstep
      exact h.delivered (.inl ⟨rfl, he.1⟩) (.inl ⟨rfl, he.2⟩)

/-! ### What the gateway was told of the store -/

/-- A part of the deltas, as the last one that has it tells it. -/
def lastTold (part : StateDelta → Option (List Fields)) (told : Option (List Fields))
    (ds : List StateDelta) : Option (List Fields) :=
  ds.foldl (fun told d => (part d).or told) told

/-- An array of the state is the one before, or it can be read and is not changed in place. -/
def ArrayKept {α : Type} (board : List α → Option (List Fields))
    (state prev : Option (StoreArray α)) : Prop :=
  (∀ arr, state = some arr → (board arr.items).isSome = true) ∧
    ∀ arr old, state = some arr → prev = some old → arr.ref = old.ref → arr.items = old.items

/-- Nothing is lost, every change can be told, and no array is changed in place. -/
def Faithful (s : StoreMirror) : MirrorEvent → Prop
  | .change state => ArrayKept boardAgents state.agents s.store.agents ∧
      ArrayKept boardTasks state.tasks s.store.tasks
  | .arrives | .other _ => True
  | .lost => False

/-- A list that was told, or is on its way, is what the store holds. -/
def Holds {α : Type} (board : List α → Option (List Fields)) (told : Option (List Fields))
    (array : Option (StoreArray α)) : Prop :=
  ∀ items, told = some items → ∀ arr, array = some arr → board arr.items = some items

/-- An array of which nothing was told is as it was at first. -/
def Silent {α : Type} (told : Option (List Fields)) (array first : Option (StoreArray α)) :
    Prop :=
  told = none → ∀ arr, array = some arr → ∃ old, first = some old ∧ arr.items = old.items

structure InStep (first : KaibanStoreState) (s : StoreMirror) : Prop where
  agents : Holds boardAgents (lastTold StateDelta.agents s.agentsTold s.inFlight) s.store.agents
  tasks : Holds boardTasks (lastTold StateDelta.tasks s.tasksTold s.inFlight) s.store.tasks
  silent : Silent (lastTold StateDelta.agents s.agentsTold s.inFlight) s.store.agents first.agents

theorem lastTold_append (part : StateDelta → Option (List Fields)) (told : Option (List Fields))
    (ds : List StateDelta) (d : StateDelta) :
    lastTold part told (ds ++ [d]) = (part d).or (lastTold part told ds) := by
  unfold lastTold
  rw [List.foldl_append]
  rfl

/-- Less that was told before makes no list of its own. -/
theorem lastTold_none (part : StateDelta → Option (List Fields)) (told : Option (List Fields))
    (items : List Fields) : ∀ ds : List StateDelta, lastTold part none ds = some items →
      lastTold part told ds = some items := by
  intro ds
  induction ds using List.reverseRecOn with
  | nil => intro h; exact absurd h (by simp [lastTold])
  | append_singleton rest d ih =>
      intro h
      rw [lastTold_append] at h ⊢
      cases hd : part d with
      | none =>
          rw [hd] at h
          exact ih h
      | some list =>
          rw [hd] at h
          exact h

/-- A change of the store keeps what is told of an array in step with it. -/
theorem Holds.change {α : Type} {board : List α → Option (List Fields)}
    {told part : Option (List Fields)} {state prev : Option (StoreArray α)}
    (h : Holds board told prev) (hkept : ArrayKept board state prev)
    (hpart : changedPart board state prev = some part) : Holds board (part.or told) state := by
  intro items hitems arr harr
  unfold changedPart changedArray at hpart
  by_cases hsame : state.map StoreArray.ref = prev.map StoreArray.ref
  · rw [if_pos hsame] at hpart
    obtain rfl := Option.some.inj hpart
    rw [harr] at hsame
    obtain ⟨old, hold, href⟩ := Option.map_eq_some_iff.mp hsame.symm
    rw [hkept.2 arr old harr hold href.symm]
    exact h items hitems old hold
  · rw [if_neg hsame, harr] at hpart
    obtain ⟨list, hlist, rfl⟩ := Option.map_eq_some_iff.mp hpart
    obtain rfl := Option.some.inj hitems
    exact hlist

theorem Silent.change {α : Type} {board : List α → Option (List Fields)}
    {told part : Option (List Fields)} {state prev first : Option (StoreArray α)}
    (h : Silent told prev first) (hkept : ArrayKept board state prev)
    (hpart : changedPart board state prev = some part) : Silent (part.or told) state first := by
  intro hnone arr harr
  obtain ⟨rfl, hold⟩ := Option.or_eq_none_iff.mp hnone
  unfold changedPart changedArray at hpart
  by_cases hsame : state.map StoreArray.ref = prev.map StoreArray.ref
  · rw [harr] at hsame
    obtain ⟨old, hprev, href⟩ := Option.map_eq_some_iff.mp hsame.symm
    rw [hkept.2 arr old harr hprev href.symm]
    exact h hold old hprev
  · rw [if_neg hsame, harr] at hpart
    obtain ⟨list, -, hlist⟩ := Option.map_eq_some_iff.mp hpart
    exact absurd hlist (by simp)

theorem ArrayKept.part {α : Type} {board : List α → Option (List Fields)}
    {state prev : Option (StoreArray α)} (h : ArrayKept board state prev) :
    ∃ part, changedPart board state prev = some part := by
  unfold changedPart changedArray
  split
  · exact ⟨none, rfl⟩
  · next items hitems =>
      split at hitems
      · exact absurd hitems (by simp)
      · obtain ⟨arr, harr, rfl⟩ := Option.map_eq_some_iff.mp hitems
        obtain ⟨list, hlist⟩ := Option.isSome_iff_exists.mp (h.1 arr harr)
        exact ⟨some list, by rw [hlist]; rfl⟩

variable {first : KaibanStoreState}

theorem toBoardDelta_parts {state prev : KaibanStoreState} {agents tasks : Option (List Fields)}
    (ha : changedPart boardAgents state.agents prev.agents = some agents)
    (ht : changedPart boardTasks state.tasks prev.tasks = some tasks) :
    ∃ d, toBoardDelta state prev = some d ∧ d.agents = agents ∧ d.tasks = tasks := by
  unfold toBoardDelta
  rw [ha, ht]
  exact ⟨_, rfl, rfl, rfl⟩

theorem nothing_parts {d : StateDelta} (h : d.nothing = true) :
    d.agents = none ∧ d.tasks = none := by
  unfold StateDelta.nothing at h
  simp only [Bool.and_eq_true, Option.isNone_iff_eq_none] at h
  exact ⟨h.1.2, h.2⟩

/-- A delta that is published is told last, and one with nothing in it tells nothing. -/
theorem lastTold_publish {part : StateDelta → Option (List Fields)}
    (told : Option (List Fields)) (ds : List StateDelta) {d : StateDelta}
    (hpart : d.nothing = true → part d = none) :
    lastTold part told (if d.nothing then ds else ds ++ [d]) =
      (part d).or (lastTold part told ds) := by
  split
  · next hnothing =>
      rw [hpart hnothing]
      rfl
  · exact lastTold_append part told ds d

theorem InStep.change (h : s.InStep first) {state : KaibanStoreState}
    (hagents : ArrayKept boardAgents state.agents s.store.agents)
    (htasks : ArrayKept boardTasks state.tasks s.store.tasks)
    (hstep : s.step (.change state) = some t) : t.InStep first := by
  obtain ⟨agents, ha⟩ := hagents.part
  obtain ⟨tasks, ht⟩ := htasks.part
  obtain ⟨d, hd, rfl, rfl⟩ := toBoardDelta_parts ha ht
  rw [StoreMirror.step, hd] at hstep
  obtain rfl := Option.some.inj hstep
  have htoldAgents := lastTold_publish s.agentsTold s.inFlight fun hn => (@nothing_parts d hn).1
  have htoldTasks := lastTold_publish s.tasksTold s.inFlight fun hn => (@nothing_parts d hn).2
  refine ⟨?_, ?_, ?_⟩
  · dsimp only
    rw [htoldAgents]
    exact h.agents.change hagents ha
  · dsimp only
    rw [htoldTasks]
    exact h.tasks.change htasks ht
  · dsimp only
    rw [htoldAgents]
    exact h.silent.change hagents ha

/-- What a new run takes back of the tasks is not told. -/
theorem lastTold_cleared {told kept : Option (List Fields)} (hkept : kept = told ∨ kept = none)
    {part : Option (List Fields)} {ds : List StateDelta} {items : List Fields}
    (h : lastTold StateDelta.tasks (part.or kept) ds = some items) :
    lastTold StateDelta.tasks (part.or told) ds = some items := by
  rcases hkept with rfl | rfl
  · exact h
  · cases part with
    | none => exact lastTold_none _ _ _ ds h
    | some list => exact h

theorem InStep.delivered (h : s.InStep first) {d : StateDelta} {rest : List StateDelta}
    {agents tasks : Option (List Fields)}
    (hagents : lastTold StateDelta.agents (agents.or s.agentsTold) rest =
      lastTold StateDelta.agents s.agentsTold s.inFlight)
    (htasks : lastTold StateDelta.tasks (tasks.or s.tasksTold) rest =
      lastTold StateDelta.tasks s.tasksTold s.inFlight) :
    InStep first (delivered { s with inFlight := rest } d agents tasks) := by
  have hkept : (if s.snapshot.restarts d then none else s.tasksTold) = s.tasksTold ∨
      (if s.snapshot.restarts d then none else s.tasksTold) = none := by
    split
    · exact .inr rfl
    · exact .inl rfl
  refine ⟨?_, ?_, ?_⟩
  · show Holds boardAgents (lastTold _ (agents.or s.agentsTold) rest) s.store.agents
    rw [hagents]
    exact h.agents
  · intro items hitems arr harr
    have htold : lastTold StateDelta.tasks (tasks.or s.tasksTold) rest = some items :=
      lastTold_cleared hkept hitems
    rw [htasks] at htold
    exact h.tasks items htold arr harr
  · show Silent (lastTold _ (agents.or s.agentsTold) rest) s.store.agents first.agents
    rw [hagents]
    exact h.silent

theorem InStep.step (h : s.InStep first) {e : MirrorEvent} (he : Faithful s e)
    (hstep : s.step e = some t) : t.InStep first := by
  cases e with
  | change state => exact h.change he.1 he.2 hstep
  | arrives =>
      rw [StoreMirror.step] at hstep
      split at hstep
      · exact absurd hstep (by simp)
      · next d rest hflight =>
          obtain rfl := Option.some.inj hstep
          exact h.delivered (by rw [hflight]; rfl) (by rw [hflight]; rfl)
  | lost => exact absurd he (by simp [Faithful])
  | other d =>
      obtain rfl := Option.some.inj hstep
      exact h.delivered rfl rfl

/-- No new run of the team begins. -/
def RunsOn (s : StoreMirror) : MirrorEvent → Prop
  | .arrives => ∀ d ∈ s.inFlight.head?, s.snapshot.restarts d = false
  | .other d => s.snapshot.restarts d = false
  | .change _ | .lost => True

/-- Tasks of which nothing was told are as they were at first. -/
def TasksSilent (first : KaibanStoreState) (s : StoreMirror) : Prop :=
  Silent (lastTold StateDelta.tasks s.tasksTold s.inFlight) s.store.tasks first.tasks

theorem TasksSilent.change (h : s.TasksSilent first) {state : KaibanStoreState}
    (hagents : ArrayKept boardAgents state.agents s.store.agents)
    (htasks : ArrayKept boardTasks state.tasks s.store.tasks)
    (hstep : s.step (.change state) = some t) : t.TasksSilent first := by
  obtain ⟨agents, ha⟩ := hagents.part
  obtain ⟨tasks, ht⟩ := htasks.part
  obtain ⟨d, hd, rfl, rfl⟩ := toBoardDelta_parts ha ht
  rw [StoreMirror.step, hd] at hstep
  obtain rfl := Option.some.inj hstep
  have htold := lastTold_publish s.tasksTold s.inFlight fun hn => (@nothing_parts d hn).2
  unfold TasksSilent
  dsimp only
  rw [htold]
  exact Silent.change h htasks ht

theorem TasksSilent.step (h : s.TasksSilent first) {e : MirrorEvent} (he : Faithful s e)
    (hruns : RunsOn s e) (hstep : s.step e = some t) : t.TasksSilent first := by
  cases e with
  | change state => exact h.change he.1 he.2 hstep
  | arrives =>
      rw [StoreMirror.step] at hstep
      split at hstep
      · exact absurd hstep (by simp)
      · next d rest hflight =>
          obtain rfl := Option.some.inj hstep
          have hkept : s.snapshot.restarts d = false := hruns d (by rw [hflight]; rfl)
          unfold TasksSilent at h ⊢
          rw [hflight] at h
          have htold : (s.delivered d d.agents d.tasks).tasksTold = d.tasks.or s.tasksTold := by
            simp only [delivered, hkept, Bool.false_eq_true, if_false]
          show Silent (lastTold _ (s.delivered d d.agents d.tasks).tasksTold rest) s.store.tasks _
          rw [htold]
          exact h
  | lost => exact absurd he (by simp [Faithful])
  | other d =>
      obtain rfl := Option.some.inj hstep
      have hkept : s.snapshot.restarts d = false := hruns
      unfold TasksSilent at h ⊢
      simpa only [delivered, hkept, Bool.false_eq_true, if_false, Option.none_or] using h

theorem init_inStep (store : KaibanStoreState) (control : Bool) :
    InStep store (init store control) :=
  ⟨fun items h => absurd h (by simp [init, lastTold]),
    fun items h => absurd h (by simp [init, lastTold]), fun _ arr harr => ⟨arr, harr, rfl⟩⟩

/-- **The gateway shows a team as its store has it.**  Every field of the last lists that
arrived is shown as it was told, whatever else was lost.  When nothing is lost and nothing is
on its way, these are the lists of the store.  Agents that were never told of are as they were
when the store was attached, and so are tasks, unless a new run has taken back what was told
of them. -/
theorem store_mirrored (own : JsString → Prop) {store : KaibanStoreState} {control : Bool}
    {es : List MirrorEvent} {s : StoreMirror}
    (hrun : Steps.run StoreMirror.step (init store control) es = some s)
    (hown : ∀ e ∈ es, Apart own e) :
    (∀ items, s.agentsTold = some items → ShowsItems (js "agentId") items s.snapshot.agents) ∧
    (∀ items, s.tasksTold = some items → ShowsItems (js "taskId") items s.snapshot.tasks) ∧
    (Steps.Along StoreMirror.step Faithful (init store control) es → s.inFlight = [] →
      (∀ arr, s.store.agents = some arr →
        (∃ items, boardAgents arr.items = some items ∧ s.agentsTold = some items) ∨
          s.agentsTold = none ∧ ∃ old, store.agents = some old ∧ arr.items = old.items) ∧
      ∀ arr, s.store.tasks = some arr →
        (∃ items, boardTasks arr.items = some items ∧ s.tasksTold = some items) ∨
          s.tasksTold = none ∧ (Steps.Along StoreMirror.step RunsOn (init store control) es →
            ∃ old, store.tasks = some old ∧ arr.items = old.items)) := by
  have hshown : s.Shown own := Steps.run_invariant (fun _ _ _ h he hstep => h.step he hstep)
    (init_shown store control) (Steps.along_of_mem es _ hown) hrun
  refine ⟨hshown.agents, hshown.tasks, fun hfaithful hflight => ?_⟩
  have hstep : s.InStep store := Steps.run_invariant (fun _ _ _ h he hstep => h.step he hstep)
    (init_inStep store control) hfaithful hrun
  have hagents := hstep.agents
  have htasks := hstep.tasks
  have hsilent := hstep.silent
  rw [hflight] at hagents htasks hsilent
  refine ⟨fun arr harr => ?_, fun arr harr => ?_⟩
  · cases htold : s.agentsTold with
    | none => exact .inr ⟨rfl, hsilent htold arr harr⟩
    | some items => exact .inl ⟨items, hagents items htold arr harr, rfl⟩
  · cases htold : s.tasksTold with
    | some items => exact .inl ⟨items, htasks items htold arr harr, rfl⟩
    | none =>
        refine .inr ⟨rfl, fun hruns => ?_⟩
        have hquiet : s.TasksSilent store :=
          Steps.run_invariant (fun _ _ _ h he hstep => h.step he.1 he.2 hstep)
            (fun _ arr harr => ⟨arr, harr, rfl⟩) (hfaithful.and hruns) hrun
        unfold TasksSilent at hquiet
        rw [hflight] at hquiet
        exact hquiet htold arr harr

/-- A team whose agents are not there yet. -/
def emptyStore : KaibanStoreState := ⟨none, some ⟨0, []⟩, none⟩

/-- An agent that begins to think. -/
def thinkingStore : KaibanStoreState :=
  ⟨none, some ⟨1, [⟨some (.str (js "a")), none, none, some (.str (js "THINKING"))⟩]⟩, none⟩

def thinkingRun : List MirrorEvent :=
  [.change thinkingStore, .other ⟨some (js "RUNNING"), none, none, none, none, none, none⟩,
    .arrives]

theorem store_mirrored_thinking : ∃ s : StoreMirror,
    Steps.run StoreMirror.step (init emptyStore false) thinkingRun = some s ∧
    s.agentsTold.isSome = true ∧ s.snapshot.teamWorkflowStatus = some (js "RUNNING") ∧
    ∀ items, s.agentsTold = some items → ShowsItems (js "agentId") items s.snapshot.agents := by
  have hown : ∀ e ∈ thinkingRun, Apart (fun id => id = js "a") e := by
    intro e he
    simp only [thinkingRun, List.mem_cons, List.not_mem_nil, or_false] at he
    rcases he with rfl | rfl | rfl
    · refine ⟨fun arr harr m hm => ?_, fun arr harr => absurd harr (by simp [thinkingStore])⟩
      obtain rfl := Option.some.inj harr
      rw [List.mem_singleton.mp hm]
    · exact ⟨fun x hx => absurd hx (by simp), fun x hx => absurd hx (by simp)⟩
    · trivial
  have hends : ((Steps.run StoreMirror.step (init emptyStore false) thinkingRun).map fun s =>
      (s.agentsTold.isSome, s.snapshot.teamWorkflowStatus)) = some (true, some (js "RUNNING")) :=
    rfl
  obtain ⟨s, hrun, hshape⟩ := Option.map_eq_some_iff.mp hends
  obtain ⟨htold, hstatus⟩ := Prod.mk.inj hshape
  exact ⟨s, hrun, htold, hstatus, (store_mirrored (fun id => id = js "a") hrun hown).1⟩

end StoreMirror

end Kaiban
