/-
Times that never crowd a window.

A limiter lets a time through when fewer than `n` of those it let through before lie within
`w` of it.  `Sparse` says that every time was let through in this way, and then no closed
window of length `w` holds more than `n` of them, wherever it lies.

Times are kept in order, so those that have left a window are in front.
-/
import Mathlib.Algebra.Order.Monoid.Defs
import Mathlib.Data.List.Basic

/-- Each time comes when all but fewer than `n` of the earlier ones are more than `w` ago. -/
inductive Sparse {α : Type} [Add α] [LT α] (n : ℕ) (w : α) : List α → Prop
  | nil : Sparse n w []
  | snoc (old recent : List α) (x : α) (h : Sparse n w (old ++ recent))
      (hrecent : recent.length < n) (hold : ∀ y ∈ old, y + w < x) :
      Sparse n w (old ++ recent ++ [x])

namespace Sparse

variable {α : Type} [AddCommMonoid α] [LinearOrder α] [IsOrderedCancelAddMonoid α]

/-- **A closed window of length `w` holds at most `n` of the times.** -/
theorem window_le {n : ℕ} {w : α} {times : List α} (h : Sparse n w times) (t : α) :
    (times.filter fun x => t ≤ x ∧ x ≤ t + w).length ≤ n := by
  induction h with
  | nil => exact Nat.zero_le n
  | snoc old recent x h hrecent hold ih =>
      rw [List.filter_append, List.length_append]
      by_cases hx : t ≤ x ∧ x ≤ t + w
      · have hbefore : old.filter (fun y => t ≤ y ∧ y ≤ t + w) = [] := by
          rw [List.filter_eq_nil_iff]
          intro y hy hin
          have hlt : y + w < t + w := lt_of_lt_of_le (hold y hy) hx.2
          have hin : t ≤ y ∧ y ≤ t + w := by simpa using hin
          exact absurd (lt_of_add_lt_add_right hlt) (not_lt.mpr hin.1)
        rw [List.filter_append, hbefore, List.nil_append]
        have hle := List.length_filter_le (fun y => decide (t ≤ y ∧ y ≤ t + w)) recent
        have hone := List.length_filter_le (fun y => decide (t ≤ y ∧ y ≤ t + w)) [x]
        rw [List.length_singleton] at hone
        omega
      · have hnone : [x].filter (fun y => t ≤ y ∧ y ≤ t + w) = [] := by simpa using hx
        rw [hnone, List.length_nil, Nat.add_zero]
        exact ih

end Sparse

/-- **When the times of a front are the older ones, dropping them from sorted times leaves as
many as there are others.** -/
theorem length_dropWhile_of_sorted {α : Type} [LE α] {p : α → Bool}
    (hp : ∀ a b, a ≤ b → p b = true → p a = true) :
    ∀ {times : List α}, times.Pairwise (· ≤ ·) →
      (times.dropWhile p).length = times.countP fun t => !p t := by
  intro times
  induction times with
  | nil => intro _; rfl
  | cons first rest ih =>
      intro hsorted
      obtain ⟨hfirst, hrest⟩ := List.pairwise_cons.mp hsorted
      by_cases h : p first = true
      · rw [List.dropWhile_cons_of_pos h, List.countP_cons_of_neg (by simp [h])]
        exact ih hrest
      · rw [List.dropWhile_cons_of_neg h, List.countP_cons_of_pos (by simp [h]), List.length_cons]
        have hall : rest.countP (fun t => !p t) = rest.length := by
          rw [List.countP_eq_length]
          intro t ht
          by_contra hpt
          exact h (hp first t (hfirst t ht) (by simpa using hpt))
        rw [hall]
