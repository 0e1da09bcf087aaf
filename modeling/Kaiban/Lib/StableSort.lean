/-
Sorting by a key, from the greatest down.

The sort is stable: elements of one key stay in the order they were in.  So the first
element of the sorted list is the earliest of the greatest key.
-/
import Mathlib.Data.List.Sort

namespace StableSort

variable {α : Type} (key : α → ℕ)

/-- A list sorted by a key, from the greatest down. -/
def byKey (l : List α) : List α := l.insertionSort fun a b => key b ≤ key a

theorem byKey_perm (l : List α) : (byKey key l).Perm l := List.perm_insertionSort _ l

@[simp] theorem mem_byKey {l : List α} {a : α} : a ∈ byKey key l ↔ a ∈ l :=
  List.mem_insertionSort _

theorem byKey_pairwise (l : List α) : (byKey key l).Pairwise fun a b => key b ≤ key a := by
  have htotal : Std.Total fun a b : α => key b ≤ key a :=
    ⟨fun a b => Nat.le_total (key b) (key a)⟩
  have htrans : IsTrans α fun a b => key b ≤ key a :=
    ⟨fun _ _ _ hab hbc => Nat.le_trans hbc hab⟩
  exact List.pairwise_insertionSort _ l

/-- **Elements of one key keep their order.** -/
theorem filter_byKey (l : List α) {p : α → Bool}
    (hp : ∀ a b, p a = true → p b = true → key a = key b) :
    (byKey key l).filter p = l.filter p := by
  have htotal : Std.Total fun a b : α => key b ≤ key a :=
    ⟨fun a b => Nat.le_total (key b) (key a)⟩
  have htrans : IsTrans α fun a b => key b ≤ key a :=
    ⟨fun _ _ _ hab hbc => Nat.le_trans hbc hab⟩
  have hsame : (l.filter p).Pairwise fun a b => key b ≤ key a := by
    refine List.pairwise_of_forall_mem_list fun a ha b hb => ?_
    exact le_of_eq (hp b a (List.mem_filter.mp hb).2 (List.mem_filter.mp ha).2)
  have hsub : (l.filter p).Sublist (byKey key l) :=
    List.sublist_insertionSort hsame List.filter_sublist
  have hfiltered : (l.filter p).Sublist ((byKey key l).filter p) := by
    have h := hsub.filter p
    rwa [List.filter_filter, show (fun a => p a && p a) = p from funext fun a => Bool.and_self _]
      at h
  exact (hfiltered.eq_of_length ((byKey_perm key l).filter p).length_eq.symm).symm

/-- The first that is found in a sorted list has the greatest key of those looked for. -/
theorem le_of_find? {l : List α} {p : α → Bool} {a b : α}
    (h : (byKey key l).find? p = some a) (hb : b ∈ l) (hp : p b = true) : key b ≤ key a := by
  have hsorted := (byKey_pairwise key l).filter p
  have hmem : b ∈ (byKey key l).filter p := List.mem_filter.mpr ⟨(mem_byKey key).mpr hb, hp⟩
  rw [← List.head?_filter] at h
  cases hlist : (byKey key l).filter p with
  | nil =>
      rw [hlist] at h
      exact absurd h (by simp)
  | cons c rest =>
      rw [hlist] at h hsorted hmem
      obtain rfl := Option.some.inj h
      rcases List.mem_cons.mp hmem with rfl | hrest
      · exact le_refl _
      · exact List.rel_of_pairwise_cons hsorted hrest

/-- The first of a sorted list has the greatest key. -/
theorem le_of_head? {l : List α} {a b : α} (h : (byKey key l).head? = some a) (hb : b ∈ l) :
    key b ≤ key a := by
  rw [← List.filter_true (byKey key l), List.head?_filter] at h
  exact le_of_find? key h hb rfl

end StableSort
