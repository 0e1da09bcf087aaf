/-
An object's members in the order of its properties.

A value that was built from a text has each name once, at the place where it came first and
with the value it had last, and names that are array indices come first, in ascending order.
`ordered` puts every object of a value in that order.  Writing a value and reading it back
keeps the order it is in.
-/
import Kaiban.Lib.Json
import Kaiban.Lib.OrderedMap
import Mathlib.Data.List.Sort

open JsString

namespace Json

/-- The index a name stands for, when it is the text of one. -/
def arrayIndex (k : JsString) : Option ℕ :=
  if k ≠ [] ∧ (k.all NumberText.isDigit = true) ∧ (k.length = 1 ∨ k.head? ≠ some (unit '0')) then
    let n := NumberText.digitsValue (k.map fun u => u.val - 0x30)
    if n < 4294967295 then some n else none
  else none

variable {υ ω : Type}

/-- The members of the object that some members make, in the order of its properties. -/
def propertyOrder (ms : List (JsString × υ)) : List (JsString × υ) :=
  let own := (OrderedMap.empty.setAll ms).entries
  (own.filter fun m => (arrayIndex m.1).isSome).insertionSort
      (fun a b => (arrayIndex a.1).getD 0 ≤ (arrayIndex b.1).getD 0)
    ++ own.filter fun m => (arrayIndex m.1).isNone

mutual
/-- The value with every object in the order of its properties. -/
def ordered : Json → Json
  | .null => .null
  | .bool b => .bool b
  | .num n => .num n
  | .str s => .str s
  | .arr vs => .arr (orderedItems vs)
  | .obj ms => .obj (propertyOrder (orderedMembers ms))

def orderedItems : List Json → List Json
  | [] => []
  | v :: vs => ordered v :: orderedItems vs

def orderedMembers : List (JsString × Json) → List (JsString × Json)
  | [] => []
  | (k, v) :: ms => (k, ordered v) :: orderedMembers ms
end

/-! ### Values do not matter for the order -/

/-- A member with its value mapped. -/
def onValue (f : υ → ω) (m : JsString × υ) : JsString × ω := (m.1, f m.2)

theorem entries_set_map (f : υ → ω) {m : OrderedMap JsString υ} {n : OrderedMap JsString ω}
    (h : n.entries = m.entries.map (onValue f)) (k : JsString) (v : υ) :
    (n.set k (f v)).entries = (m.set k v).entries.map (onValue f) := by
  have hkeys : n.keys = m.keys := by
    unfold OrderedMap.keys
    rw [h, List.map_map]
    rfl
  unfold OrderedMap.set
  by_cases hk : k ∈ m.keys
  · rw [dif_pos hk, dif_pos (hkeys ▸ hk)]
    show OrderedMap.overwrite k (f v) n.entries
      = (OrderedMap.overwrite k v m.entries).map (onValue f)
    unfold OrderedMap.overwrite
    rw [h, List.map_map, List.map_map]
    refine List.map_congr_left fun e _ => ?_
    show (if e.1 = k then (k, f v) else onValue f e) = onValue f (if e.1 = k then (k, v) else e)
    split <;> rfl
  · rw [dif_neg hk, dif_neg (hkeys ▸ hk)]
    show n.entries ++ [(k, f v)] = (m.entries ++ [(k, v)]).map (onValue f)
    rw [h, List.map_append]
    rfl

theorem entries_setAll_map (f : υ → ω) (ms : List (JsString × υ)) :
    ∀ {m : OrderedMap JsString υ} {n : OrderedMap JsString ω},
      n.entries = m.entries.map (onValue f) →
      (n.setAll (ms.map (onValue f))).entries = (m.setAll ms).entries.map (onValue f) := by
  induction ms with
  | nil => intro m n h; exact h
  | cons e rest ih => intro m n h; exact ih (entries_set_map f h e.1 e.2)

/-- **Mapping the values of an object keeps the order of its properties.** -/
theorem propertyOrder_map (f : υ → ω) (ms : List (JsString × υ)) :
    propertyOrder (ms.map (onValue f)) = (propertyOrder ms).map (onValue f) := by
  unfold propertyOrder
  have hown : (OrderedMap.empty.setAll (ms.map (onValue f))).entries
      = (OrderedMap.empty.setAll ms).entries.map (onValue f) := entries_setAll_map f ms rfl
  dsimp only
  rw [hown, List.map_append, List.filter_map, List.filter_map]
  congr 1
  exact (List.map_insertionSort _ _ (onValue f) _ fun a _ b _ => Iff.rfl).symm

/-! ### The members themselves do not change -/

theorem get_eq_some_iff {ms : List (JsString × Json)} (h : (ms.map Prod.fst).Nodup) {k : JsString}
    {v : Json} : get ms k = some v ↔ (k, v) ∈ ms := by
  have hnodup : (ms.reverse.map Prod.fst).Nodup := by
    rw [List.map_reverse]
    exact List.nodup_reverse.mpr h
  have hsame : get ms k = OrderedMap.get ⟨ms.reverse, hnodup⟩ k := rfl
  rw [hsame, OrderedMap.get_eq_some, List.mem_reverse]

theorem get_setAll (ms : List (JsString × Json)) (k : JsString) :
    ∀ m : OrderedMap JsString Json, (m.setAll ms).get k = (get ms k).or (m.get k) := by
  induction ms with
  | nil => intro m; rfl
  | cons e rest ih =>
      intro m
      have hcons : get (e :: rest) k = (get rest k).or (get [e] k) := get_append [e] rest k
      show ((m.set e.1 e.2).setAll rest).get k = _
      rw [ih, hcons, Option.or_assoc]
      congr 1
      by_cases he : k = e.1
      · subst he
        rw [OrderedMap.get_set_self]
        simp [get]
      · rw [OrderedMap.get_set_ne m e.2 he]
        simp [get, Ne.symm he]

theorem propertyOrder_perm (ms : List (JsString × υ)) :
    (propertyOrder ms).Perm (OrderedMap.empty.setAll ms).entries := by
  unfold propertyOrder
  dsimp only
  refine ((List.perm_insertionSort _ _).append_right _).trans ?_
  have hnone : ((OrderedMap.empty.setAll ms).entries.filter fun m => (arrayIndex m.1).isNone)
      = (OrderedMap.empty.setAll ms).entries.filter fun m => !(arrayIndex m.1).isSome := by
    congr 1
    funext m
    cases arrayIndex m.1 <;> rfl
  rw [hnone]
  exact List.filter_append_perm _ _

/-- **The order does not change what a name gives.** -/
theorem get_propertyOrder (ms : List (JsString × Json)) (k : JsString) :
    get (propertyOrder ms) k = get ms k := by
  have hperm := propertyOrder_perm ms
  have hnodup : ((propertyOrder ms).map Prod.fst).Nodup :=
    (hperm.map Prod.fst).nodup_iff.mpr (OrderedMap.nodup _)
  refine Option.ext fun v => ?_
  rw [get_eq_some_iff hnodup, hperm.mem_iff, ← OrderedMap.get_eq_some, get_setAll]
  simp

theorem get_map (f : Json → Json) (ms : List (JsString × Json)) (k : JsString) :
    get (ms.map (onValue f)) k = (get ms k).map f := by
  unfold get
  rw [← List.map_reverse, List.find?_map, Option.map_map, Option.map_map]
  rfl

/-- Members in another order give the same, when no name is there twice. -/
theorem get_perm {ms ns : List (JsString × Json)} (h : ms.Perm ns)
    (hnodup : (ns.map Prod.fst).Nodup) (k : JsString) : get ms k = get ns k := by
  refine Option.ext fun v => ?_
  rw [get_eq_some_iff ((h.map Prod.fst).nodup_iff.mpr hnodup), get_eq_some_iff hnodup, h.mem_iff]

/-! ### Writing and reading -/

theorem printedMembers_eq (ms : List (JsString × Json)) :
    printedMembers ms = ms.map (onValue printed) := by
  induction ms with
  | nil => rfl
  | cons m rest ih =>
      show (m.1, printed m.2) :: printedMembers rest = onValue printed m :: _
      rw [ih]
      rfl

theorem orderedMembers_eq (ms : List (JsString × Json)) :
    orderedMembers ms = ms.map (onValue ordered) := by
  induction ms with
  | nil => rfl
  | cons m rest ih =>
      show (m.1, ordered m.2) :: orderedMembers rest = onValue ordered m :: _
      rw [ih]
      rfl

mutual
/-- **A value is written and read back in the order it is in.** -/
theorem ordered_printed : ∀ v : Json, ordered (printed v) = printed (ordered v)
  | .null => rfl
  | .bool _ => rfl
  | .num n => by cases n <;> rfl
  | .str _ => rfl
  | .arr vs => congrArg Json.arr (ordered_printedItems vs)
  | .obj ms => by
      show Json.obj (propertyOrder (orderedMembers (printedMembers ms)))
        = .obj (printedMembers (propertyOrder (orderedMembers ms)))
      rw [ordered_printedMembers ms, printedMembers_eq, printedMembers_eq, propertyOrder_map]

theorem ordered_printedItems : ∀ vs : List Json,
    orderedItems (printedItems vs) = printedItems (orderedItems vs)
  | [] => rfl
  | v :: vs => congrArg₂ List.cons (ordered_printed v) (ordered_printedItems vs)

theorem ordered_printedMembers : ∀ ms : List (JsString × Json),
    orderedMembers (printedMembers ms) = printedMembers (orderedMembers ms)
  | [] => rfl
  | (k, v) :: ms => congrArg₂ List.cons (congrArg (Prod.mk k) (ordered_printed v))
      (ordered_printedMembers ms)
end

theorem get_ordered (ms : List (JsString × Json)) (k : JsString) :
    get (propertyOrder (orderedMembers ms)) k = (get ms k).map ordered := by
  rw [get_propertyOrder, orderedMembers_eq, get_map]

end Json
