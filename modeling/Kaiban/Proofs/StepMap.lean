/-
Facts about the finite map of steps, and about the checkpoint that shows it.
-/
import Kaiban.StepMap
import Kaiban.Proofs.CheckpointStore

open JsString

namespace Kaiban

/-- The order of the entries does not depend on the values. -/
theorem objectEntries_map {υ ω : Type} (f : JsString × υ → ω) {a : OrderedMap JsString υ}
    {b : OrderedMap JsString ω} (h : b.entries = a.entries.map fun e => (e.1, f e)) :
    objectEntries b = (objectEntries a).map fun e => (e.1, f e) := by
  rw [objectEntries_eq, objectEntries_eq, h, List.map_append, List.map_map]
  congr 1
  · have hindexed : indexedEntries (a.entries.map fun e => (e.1, f e))
        = (indexedEntries a.entries).map fun x => (x.1, x.2.1, f x.2) := by
      unfold indexedEntries
      rw [List.filterMap_map, List.map_filterMap]
      refine List.filterMap_congr fun e _ => ?_
      show (arrayIndex e.1).map _ = _
      cases arrayIndex e.1 <;> rfl
    rw [hindexed, ← List.map_mergeSort (r := fun x y => decide (x.1 ≤ y.1)) fun x _ y _ => rfl,
      List.map_map]
    rfl
  · unfold namedEntries
    rw [List.filter_map]
    rfl

namespace StepMap

attribute [local instance] Arithmetic.exact

variable {m : StepMap} {cost : JsString ⊕ Option Json → SpendTotals} {name taskId : JsString}

/-! ### The checkpoint of a map -/

theorem checkpoint_get (m : StepMap) (name : JsString) :
    m.checkpoint.get name = (m.steps.get name).map (DoneStep.entry name) := by
  refine Option.ext fun e => ?_
  rw [OrderedMap.get_eq_some, Option.map_eq_some_iff]
  constructor
  · intro h
    obtain ⟨x, hx, heq⟩ := List.mem_map.mp h
    obtain ⟨rfl, rfl⟩ := Prod.mk.inj heq
    exact ⟨x.2, OrderedMap.get_eq_some.mpr hx, rfl⟩
  · rintro ⟨d, hd, rfl⟩
    exact List.mem_map.mpr ⟨(name, d), OrderedMap.get_eq_some.mp hd, rfl⟩

/-- A new step is written at the end of the checkpoint. -/
theorem add_checkpoint {d : DoneStep} {amount : SpendTotals} (h : m.Fits d)
    (hnew : m.steps.get name = none) :
    (m.add name d amount h).checkpoint = m.checkpoint.set name (d.entry name) := by
  have hsteps : (m.add name d amount h).steps.entries = m.steps.entries ++ [(name, d)] :=
    OrderedMap.set_of_notMem (OrderedMap.get_eq_none.mp hnew) d
  have hnew' : m.checkpoint.get name = none := by rw [checkpoint_get, hnew]; rfl
  refine OrderedMap.ext ?_
  rw [OrderedMap.set_of_notMem (OrderedMap.get_eq_none.mp hnew')]
  show (m.add name d amount h).steps.entries.map _ = _
  rw [hsteps, List.map_append]
  rfl

/-! ### The step of a task -/

/-- A search of a checkpoint with these steps finds the result of the task, unless it comes
to a producer's step first. -/
theorem findByTaskId_eq {cp : Checkpoint} (hcp : objectEntries cp = objectEntries m.checkpoint)
    (hplain : (m.firstWith taskId).all DoneStep.isRan = true) :
    findByTaskId cp taskId = m.resultOf taskId := by
  have hmem := fun e => (objectEntries_perm m.steps).mem_iff (a := e)
  have hentries : objectEntries m.checkpoint
      = (objectEntries m.steps).map fun e => (e.1, e.2.entry e.1) :=
    objectEntries_map (fun e : JsString × DoneStep => e.2.entry e.1) rfl
  unfold findByTaskId
  rw [objectValues_eq, hcp, hentries, List.map_map, List.find?_map]
  unfold firstWith at hplain
  show ((Option.map _ ((objectEntries m.steps).find?
    fun e => decide ((e.2.entry e.1).taskId = taskId))).bind _) = _
  cases hfind : (objectEntries m.steps).find? fun e => decide ((e.2.entry e.1).taskId = taskId) with
  | none =>
      rw [Option.map_none, Option.bind_none]
      symm
      refine List.findSome?_eq_none_iff.mpr fun e he => ?_
      have hne := List.find?_eq_none.mp hfind e ((hmem e).mpr he)
      obtain ⟨n, d⟩ := e
      cases d with
      | ran id result => exact if_neg fun hid => hne (decide_eq_true hid)
      | memoized value => rfl
  | some e =>
      have hid := List.find?_some hfind
      have he := (hmem e).mp (List.mem_of_find?_eq_some hfind)
      rw [hfind] at hplain
      obtain ⟨n, d⟩ := e
      cases d with
      | ran id result =>
          obtain rfl : id = taskId := of_decide_eq_true hid
          exact (resultOf_of_mem he (if_pos rfl)).symm
      | memoized value => exact absurd hplain (by simp [DoneStep.isRan])

/-! ### What a call comes to -/

theorem perform_runStep_known {d : DoneStep} (cost : JsString ⊕ Option Json → SpendTotals)
    (taskId result : JsString) (h : m.steps.get name = some d) :
    m.perform cost (.runStep name taskId result) = (m, ⟨d.first, false, false, none⟩) := by
  simp only [perform, h]

theorem perform_memoize_known {d : DoneStep} (cost : JsString ⊕ Option Json → SpendTotals)
    (value : Option Json) (h : m.steps.get name = some d) :
    m.perform cost (.memoize name value) = (m, ⟨d.jsonCopy, false, false, none⟩) := by
  simp only [perform, h]

/-- Its task has answered another step. -/
theorem perform_runStep_found (cost : JsString ⊕ Option Json → SpendTotals) (result : JsString)
    {r : JsString} (h : m.steps.get name = none) (hr : m.resultOf taskId = some r) : ∃ hfits,
      m.perform cost (.runStep name taskId result)
        = (m.add name (.ran taskId r) 0 hfits, ⟨.text r, true, false, none⟩) := by
  simp only [perform, h]
  split
  · rename_i r' hr'
    obtain rfl : r = r' := Option.some.inj (hr.symm.trans hr')
    exact ⟨fits_ran fun x hx => Option.some.inj (hx.symm.trans hr), rfl⟩
  · rename_i hnone
    exact absurd (hr.symm.trans hnone) (by simp)

theorem perform_runStep_new (cost : JsString ⊕ Option Json → SpendTotals) (result : JsString)
    (h : m.steps.get name = none) (hr : m.resultOf taskId = none) : ∃ hfits,
      m.perform cost (.runStep name taskId result)
        = (m.add name (.ran taskId result) (cost (.inl result)) hfits,
            ⟨.text result, true, true, some (.inl result)⟩) := by
  simp only [perform, h]
  split
  · rename_i r' hr'
    exact absurd (hr.symm.trans hr') (by simp)
  · exact ⟨fits_ran fun x hx => absurd (hr.symm.trans hx) (by simp), rfl⟩

theorem perform_memoize_new (cost : JsString ⊕ Option Json → SpendTotals) (value : Option Json)
    (h : m.steps.get name = none) :
    m.perform cost (.memoize name value)
      = (m.add name (.memoized value) (cost (.inr value)) (m.fits_memoized value),
          ⟨.value value, true, false, some (.inr value)⟩) := by
  simp only [perform, h]

end StepMap

end Kaiban
