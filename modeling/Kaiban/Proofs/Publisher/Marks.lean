/-
Which tasks the publisher remembers as stopped.

A task is remembered from the report of its stop until an attempt of it begins, and for as
long as fewer other tasks are reported than the set has room for.  So whether it is
remembered can be told from the history alone: what was reported and what has begun.
-/
import Kaiban.Publisher
import Mathlib.Data.Finset.Card

open JsString

namespace Kaiban

/-- What a history of sends and attempts says of the tasks. -/
inductive Happening where
  /-- An attempt of the task has begun. -/
  | begun (taskId : JsString)
  /-- The stop of a send of the task was reported. -/
  | told (d : ℕ) (taskId : JsString)
  deriving DecidableEq

/-- The stop of a send of the task was reported, and no attempt of the task is among what
came `after` that. -/
def Outstanding (hist : List Happening) (taskId : JsString) (after : List Happening) : Prop :=
  ∃ before d, hist = before ++ .told d taskId :: after ∧ .begun taskId ∉ after

/-- The other tasks whose stops were reported. -/
def otherTasks (taskId : JsString) (hist : List Happening) : List JsString :=
  hist.filterMap fun
    | .begun _ => none
    | .told _ x => if x = taskId then none else some x

/-- What the set of remembered tasks becomes. -/
def remember (m : OrderedMap JsString Unit) : Happening → OrderedMap JsString Unit
  | .begun taskId => m.erase taskId
  | .told _ taskId =>
      match m.get taskId with
      | some _ => m
      | none => m.touch maxRememberedStops taskId ()

theorem remember_told_none {m : OrderedMap JsString Unit} {taskId : JsString}
    (h : m.get taskId = none) (d : ℕ) :
    remember m (.told d taskId) = m.touch maxRememberedStops taskId () := by
  simp only [remember, h]

theorem remember_told_some {m : OrderedMap JsString Unit} {taskId : JsString}
    (h : m.get taskId = some ()) (d : ℕ) : remember m (.told d taskId) = m := by
  simp only [remember, h]

/-! ### One more happening -/

variable {hist after : List Happening} {taskId x : JsString} {e : Happening}

theorem outstanding_concat : Outstanding (hist ++ [e]) taskId after ↔
    (after = [] ∧ ∃ d, e = .told d taskId) ∨
      ∃ rest, after = rest ++ [e] ∧ e ≠ .begun taskId ∧ Outstanding hist taskId rest := by
  constructor
  · rintro ⟨before, d, heq, hnot⟩
    rcases List.eq_nil_or_concat' after with rfl | ⟨rest, last, rfl⟩
    · have hlast := (List.append_inj' heq rfl).2
      exact .inl ⟨rfl, d, (List.cons.inj hlast).1⟩
    · rw [← List.cons_append, ← List.append_assoc] at heq
      obtain ⟨hrest, hlast⟩ := List.append_inj' heq rfl
      obtain rfl : e = last := (List.cons.inj hlast).1
      rw [List.mem_append, List.mem_singleton, not_or] at hnot
      exact .inr ⟨rest, rfl, fun he => hnot.2 he.symm, before, d, hrest, hnot.1⟩
  · rintro (⟨rfl, d, rfl⟩ | ⟨rest, rfl, hne, before, d, rfl, hnot⟩)
    · exact ⟨hist, d, rfl, List.not_mem_nil⟩
    · refine ⟨before, d, by simp, ?_⟩
      rw [List.mem_append, List.mem_singleton, not_or]
      exact ⟨hnot, fun he => hne he.symm⟩

/-- Nothing is outstanding of a task of which an attempt has just begun. -/
theorem not_outstanding_begun : ¬ Outstanding (hist ++ [.begun taskId]) taskId after := by
  rw [outstanding_concat]
  rintro (⟨-, d, he⟩ | ⟨rest, -, hne, -⟩)
  · exact Happening.noConfusion he
  · exact hne rfl

theorem otherTasks_concat (taskId : JsString) (hist : List Happening) (e : Happening) :
    otherTasks taskId (hist ++ [e]) = otherTasks taskId hist ++ otherTasks taskId [e] :=
  List.filterMap_append

theorem mem_otherTasks_concat (h : x ∈ otherTasks taskId hist) (e : Happening) :
    x ∈ otherTasks taskId (hist ++ [e]) := by
  rw [otherTasks_concat]
  exact List.mem_append_left _ h

theorem card_otherTasks_concat (taskId : JsString) (hist : List Happening) (e : Happening) :
    (otherTasks taskId hist).toFinset.card ≤ (otherTasks taskId (hist ++ [e])).toFinset.card := by
  refine Finset.card_le_card fun x hx => ?_
  rw [List.mem_toFinset] at hx ⊢
  exact mem_otherTasks_concat hx e

/-! ### What is remembered -/

/-- Where the set has a task with an outstanding report: whatever stands behind the task was
reported since, or more tasks were than there is room for. -/
def Placed (m : OrderedMap JsString Unit) (taskId : JsString) (after : List Happening) : Prop :=
  (∃ ahead behind, m.entries = ahead ++ (taskId, ()) :: behind ∧
    ∀ e ∈ behind, e.1 ∈ otherTasks taskId after) ∨
  maxRememberedStops ≤ (otherTasks taskId after).toFinset.card

/-- A task is remembered when a report of it is outstanding, and only then. -/
def Remembered (m : OrderedMap JsString Unit) (taskId : JsString) (hist : List Happening) :
    Prop :=
  (m.get taskId = none ∧ ∀ after, ¬ Outstanding hist taskId after) ∨
    ∃ after, Outstanding hist taskId after ∧ Placed m taskId after

/-- Another task is reported. -/
theorem Placed.touch {m : OrderedMap JsString Unit} (h : Placed m taskId after) (d : ℕ)
    (hx : x ≠ taskId) :
    Placed (m.touch maxRememberedStops x ()) taskId (after ++ [.told d x]) := by
  have hnew : x ∈ otherTasks taskId (after ++ [.told d x]) := by
    rw [otherTasks_concat]
    exact List.mem_append_right _ (by simp [otherTasks, hx])
  rcases h with ⟨ahead, behind, hentries, hbehind⟩ | hmany
  · let ahead' := ahead.filter fun e => e.1 ≠ x
    let behind' := (behind.filter fun e => e.1 ≠ x) ++ [(x, ())]
    have hmoved : m.movedEntries x () = ahead' ++ (taskId, ()) :: behind' := by
      show (m.entries.filter fun e => e.1 ≠ x) ++ [(x, ())] = _
      rw [hentries, List.filter_append, List.filter_cons_of_pos (by simpa using hx.symm)]
      simp [ahead', behind']
    have hbehind' : ∀ e ∈ behind', e.1 ∈ otherTasks taskId (after ++ [.told d x]) := by
      intro e he
      rcases List.mem_append.mp he with hold | hlast
      · exact mem_otherTasks_concat (hbehind e (List.mem_filter.mp hold).1) _
      · rw [List.mem_singleton.mp hlast]
        exact hnew
    have htouched := OrderedMap.entries_touch maxRememberedStops m x ()
    rw [hmoved] at htouched
    by_cases hmore : maxRememberedStops < (ahead' ++ (taskId, ()) :: behind').length
    · rw [if_pos hmore] at htouched
      cases hahead : ahead' with
      | cons e rest =>
          rw [hahead] at htouched
          exact .inl ⟨rest, behind', htouched, hbehind'⟩
      | nil =>
          -- The tasks behind this one are different ones, and all of them came since.
          have hnodup : ((m.movedEntries x ()).map Prod.fst).Nodup := by
            rw [← OrderedMap.entries_moved]
            exact ((m.erase x).set x ()).nodup
          rw [hmoved, hahead] at hnodup
          have hkeys : (behind'.map Prod.fst).Nodup := (List.nodup_cons.mp hnodup).2
          have hsub : (behind'.map Prod.fst).toFinset
              ⊆ (otherTasks taskId (after ++ [.told d x])).toFinset := by
            intro y hy
            rw [List.mem_toFinset] at hy ⊢
            obtain ⟨e, he, rfl⟩ := List.mem_map.mp hy
            exact hbehind' e he
          have hcard := Finset.card_le_card hsub
          rw [List.toFinset_card_of_nodup hkeys, List.length_map] at hcard
          rw [hahead, List.nil_append, List.length_cons] at hmore
          exact .inr (by omega)
    · rw [if_neg hmore] at htouched
      exact .inl ⟨ahead', behind', htouched, hbehind'⟩
  · exact .inr (hmany.trans (card_otherTasks_concat taskId after _))

/-- An attempt of another task begins. -/
theorem Placed.erase {m : OrderedMap JsString Unit} (h : Placed m taskId after)
    (hx : x ≠ taskId) : Placed (m.erase x) taskId (after ++ [.begun x]) := by
  rcases h with ⟨ahead, behind, hentries, hbehind⟩ | hmany
  · refine .inl ⟨ahead.filter fun e => e.1 ≠ x, behind.filter fun e => e.1 ≠ x, ?_, ?_⟩
    · show (m.entries.filter fun e => e.1 ≠ x) = _
      rw [hentries, List.filter_append, List.filter_cons_of_pos (by simpa using hx.symm)]
    · intro e he
      exact mem_otherTasks_concat (hbehind e (List.mem_filter.mp he).1) _
  · exact .inr (hmany.trans (card_otherTasks_concat taskId after _))

/-- A report that changes nothing. -/
theorem Placed.kept {m : OrderedMap JsString Unit} (h : Placed m taskId after) (e : Happening) :
    Placed m taskId (after ++ [e]) := by
  rcases h with ⟨ahead, behind, hentries, hbehind⟩ | hmany
  · exact .inl ⟨ahead, behind, hentries, fun x hx => mem_otherTasks_concat (hbehind x hx) e⟩
  · exact .inr (hmany.trans (card_otherTasks_concat taskId after e))

/-- A task that is not remembered is remembered last. -/
theorem placed_self (m : OrderedMap JsString Unit) (taskId : JsString) :
    Placed (m.touch maxRememberedStops taskId ()) taskId [] := by
  have hentries := OrderedMap.entries_touch maxRememberedStops m taskId ()
  unfold OrderedMap.movedEntries at hentries
  cases hrest : m.entries.filter fun e => e.1 ≠ taskId with
  | nil =>
      rw [hrest, if_neg (by simp [maxRememberedStops])] at hentries
      exact .inl ⟨[], [], hentries, by simp⟩
  | cons e rest =>
      rw [hrest] at hentries
      by_cases hmore : maxRememberedStops < (e :: rest ++ [(taskId, ())]).length
      · rw [if_pos hmore] at hentries
        exact .inl ⟨rest, [], hentries, by simp⟩
      · rw [if_neg hmore] at hentries
        exact .inl ⟨e :: rest, [], hentries, by simp⟩

/-- **What is remembered follows the history**, one happening after the other. -/
theorem Remembered.step {m : OrderedMap JsString Unit} (h : Remembered m taskId hist)
    (e : Happening) : Remembered (remember m e) taskId (hist ++ [e]) := by
  cases e with
  | begun x =>
      by_cases hx : x = taskId
      · subst hx
        exact .inl ⟨m.get_erase_self x, fun after => not_outstanding_begun⟩
      · have hne : Happening.begun x ≠ .begun taskId := fun he => hx (Happening.begun.inj he)
        rcases h with ⟨hnone, hno⟩ | ⟨after, hout, hplaced⟩
        · refine .inl ⟨(m.get_erase_ne (Ne.symm hx)).trans hnone, fun after hout => ?_⟩
          rcases outstanding_concat.mp hout with ⟨-, d, he⟩ | ⟨rest, -, -, hold⟩
          · exact Happening.noConfusion he
          · exact hno rest hold
        · exact .inr ⟨_, outstanding_concat.mpr (.inr ⟨after, rfl, hne, hout⟩), hplaced.erase hx⟩
  | told d x =>
      have hne : Happening.told d x ≠ .begun taskId := fun he => Happening.noConfusion he
      by_cases hx : x = taskId
      · subst hx
        rcases h with ⟨hnone, -⟩ | ⟨after, hout, hplaced⟩
        · refine .inr ⟨[], outstanding_concat.mpr (.inl ⟨rfl, d, rfl⟩), ?_⟩
          rw [remember_told_none hnone]
          exact placed_self m x
        · refine .inr ⟨_, outstanding_concat.mpr (.inr ⟨after, rfl, hne, hout⟩), ?_⟩
          rcases hplaced with ⟨ahead, behind, hentries, hbehind⟩ | hmany
          · have hsome : m.get x = some () := by
              rw [OrderedMap.get_eq_some, hentries]
              simp
            rw [remember_told_some hsome]
            exact Placed.kept (.inl ⟨ahead, behind, hentries, hbehind⟩) _
          · exact .inr (hmany.trans (card_otherTasks_concat x after _))
      · rcases h with ⟨hnone, hno⟩ | ⟨after, hout, hplaced⟩
        · refine .inl ⟨?_, fun after hout => ?_⟩
          · cases hget : m.get x with
            | some u => rwa [remember_told_some hget]
            | none =>
                rw [remember_told_none hget]
                rcases m.get_touch_ne maxRememberedStops () (Ne.symm hx) with hkept | hkept
                · exact hkept.trans hnone
                · exact hkept
          · rcases outstanding_concat.mp hout with ⟨-, d', he⟩ | ⟨rest, -, -, hold⟩
            · exact hx (Happening.told.inj he).2
            · exact hno rest hold
        · refine .inr ⟨_, outstanding_concat.mpr (.inr ⟨after, rfl, hne, hout⟩), ?_⟩
          cases hget : m.get x with
          | some u =>
              rw [remember_told_some hget]
              exact hplaced.kept _
          | none =>
              rw [remember_told_none hget]
              exact hplaced.touch d hx

theorem remembered_nil (taskId : JsString) : Remembered .empty taskId [] := by
  refine .inl ⟨rfl, fun after hout => ?_⟩
  obtain ⟨before, d, heq, -⟩ := hout
  exact absurd heq (by simp)

/-- **What is remembered after a history.** -/
theorem remembered (taskId : JsString) (hist : List Happening) :
    Remembered (hist.foldl remember .empty) taskId hist := by
  induction hist using List.reverseRecOn with
  | nil => exact remembered_nil taskId
  | append_singleton hist e ih =>
      rw [List.foldl_append]
      exact ih.step e

/-! ### Reports in their turn -/

/-- A report of a send of the task comes in its turn.  The first one finds no other report of
the task outstanding, and a later one finds one that is, with room for all the tasks that
were reported since. -/
structure InTurn (hist : List Happening) (taskId : JsString) (reported : Prop) : Prop where
  first : ¬ reported → ∀ after, ¬ Outstanding hist taskId after
  again : reported → ∃ after, Outstanding hist taskId after
  few : ∀ after, Outstanding hist taskId after →
    (otherTasks taskId after).toFinset.card < maxRememberedStops

theorem not_outstanding_untold (h : ∀ d, .told d taskId ∉ hist) :
    ¬ Outstanding hist taskId after := by
  rintro ⟨before, d, rfl, -⟩
  exact h d (by simp)

/-- The first report of a task. -/
theorem inTurn_untold {reported : Prop} (hr : ¬ reported) (h : ∀ d, .told d taskId ∉ hist) :
    InTurn hist taskId reported where
  first _ _ := not_outstanding_untold h
  again hreported := absurd hreported hr
  few _ hout := absurd hout (not_outstanding_untold h)

/-- A second report that follows the first. -/
theorem inTurn_told {reported : Prop} (h : ∀ after, ¬ Outstanding hist taskId after) (d : ℕ)
    (hr : reported) : InTurn (hist ++ [.told d taskId]) taskId reported where
  first hno := absurd hr hno
  again _ := ⟨[], outstanding_concat.mpr (.inl ⟨rfl, d, rfl⟩)⟩
  few after hout := by
    rcases outstanding_concat.mp hout with ⟨rfl, -⟩ | ⟨rest, -, -, hold⟩
    · simp [otherTasks, maxRememberedStops]
    · exact absurd hold (h rest)

/-- **In its turn a report finds the task remembered exactly when it is not the first.** -/
theorem InTurn.remembered_iff {reported : Prop} (h : InTurn hist taskId reported)
    {m : OrderedMap JsString Unit} (hm : Remembered m taskId hist) :
    (m.get taskId).isSome = true ↔ reported := by
  rcases hm with ⟨hnone, hno⟩ | ⟨after, hout, hplaced⟩
  · constructor
    · intro hsome
      rw [hnone] at hsome
      exact absurd hsome (by simp)
    · intro hr
      obtain ⟨after, hout⟩ := h.again hr
      exact absurd hout (hno after)
  · refine ⟨fun _ => ?_, fun _ => ?_⟩
    · by_contra hr
      exact h.first hr after hout
    · rcases hplaced with ⟨ahead, behind, hentries, -⟩ | hmany
      · have hsome : m.get taskId = some () := by
          rw [OrderedMap.get_eq_some, hentries]
          simp
        rw [hsome]
        rfl
      · exact absurd (h.few after hout) (not_lt.mpr hmany)

end Kaiban
