/-
The breaker is its window.

The list has the failures that were in the window when the clock was last read, and the flag
is set whenever these are enough.  It may also be set when they are too few, but `isOpen` takes
it back then before it answers.
-/
import Kaiban.SlidingWindowBreaker

open JsString

namespace Kaiban

/-- **A breaker is constructed exactly from a whole threshold of at least one and a positive
window.** -/
theorem BreakerLimits.create_eq_ok {threshold windowMs : JsNumber} {l : BreakerLimits} :
    BreakerLimits.create threshold windowMs = .ok l ↔
      threshold = .finite (Decimal.ofInt l.threshold) ∧ windowMs = .finite l.windowMs := by
  constructor
  · intro h
    unfold BreakerLimits.create at h
    split at h
    · rename_i n
      split at h
      · rename_i hn
        split at h
        · rename_i w
          split at h
          · obtain rfl := Except.ok.inj h
            refine ⟨?_, rfl⟩
            have hvalue : n.val = ((n.val.num.toNat : ℤ) : ℚ) := by
              rw [Int.toNat_of_nonneg (zero_le_one.trans hn.2)]
              exact (Rat.coe_int_num_of_den_eq_one hn.1).symm
            refine congrArg JsNumber.finite (Subtype.ext ?_)
            exact hvalue.trans (Decimal.coe_ofInt _).symm
          · exact absurd h (by simp)
        · exact absurd h (by simp)
      · exact absurd h (by simp)
    · exact absurd h (by simp)
  · rintro ⟨rfl, rfl⟩
    have hval : (Decimal.ofInt (l.threshold : ℤ)).val = ((l.threshold : ℤ) : ℚ) :=
      Decimal.coe_ofInt _
    have hn : (Decimal.ofInt (l.threshold : ℤ)).val.den = 1 ∧
        1 ≤ (Decimal.ofInt (l.threshold : ℤ)).val.num := by
      rw [hval]
      exact ⟨Rat.den_intCast _, by exact_mod_cast l.threshold_pos⟩
    have hnum : (Decimal.ofInt (l.threshold : ℤ)).val.num.toNat = l.threshold := by
      rw [hval, Rat.num_intCast, Int.toNat_natCast]
    unfold BreakerLimits.create
    dsimp only
    rw [dif_pos hn, dif_pos l.window_pos]
    cases l
    simp only [Except.ok.injEq, BreakerLimits.mk.injEq, and_true]
    exact hnum

namespace SlidingWindowBreaker

variable {l : BreakerLimits} {s : SlidingWindowBreaker} {times : List Decimal} {last now : Decimal}

/-- The times in the window that ends now. -/
def within (l : BreakerLimits) (times : List Decimal) (now : Decimal) : List Decimal :=
  times.filter fun ts => now - l.windowMs < ts

/-- A breaker that has recorded failures at these times, as it is after a reading of the
clock. -/
structure Follows (l : BreakerLimits) (times : List Decimal) (s : SlidingWindowBreaker)
    (last : Decimal) : Prop where
  failures : s.failures = within l times last
  past : ∀ ts ∈ times, ts ≤ last
  enough : l.threshold ≤ s.failures.length → s.opened = true

theorem follows_init (l : BreakerLimits) (last : Decimal) : Follows l [] init last where
  failures := rfl
  past _ h := absurd h List.not_mem_nil
  enough h := absurd (l.threshold_pos.trans h) (by simp [init])

/-- What is in the window later is what is left of it. -/
theorem within_within (l : BreakerLimits) (times : List Decimal) (h : last ≤ now) :
    (within l times last).filter (fun ts => now - l.windowMs < ts) = within l times now := by
  unfold within
  rw [List.filter_filter]
  refine List.filter_congr fun ts _ => ?_
  by_cases hts : now - l.windowMs < ts
  · have hlast : last - l.windowMs < ts := (sub_le_sub_right h _).trans_lt hts
    simp [hts, hlast]
  · simp [hts]

theorem Follows.prune (h : Follows l times s last) (hnow : last ≤ now) :
    Follows l times (s.pruneOldFailures l now) now where
  failures := by
    show s.failures.filter _ = _
    rw [h.failures]
    exact within_within l times hnow
  past ts hts := (h.past ts hts).trans hnow
  enough hlen := h.enough (hlen.trans (List.length_filter_le _ _))

theorem Follows.closeIfFew (h : Follows l times s now) :
    Follows l times (s.closeIfFew l) now ∧
      ((s.closeIfFew l).opened = true ↔ l.threshold ≤ (within l times now).length) := by
  unfold SlidingWindowBreaker.closeIfFew
  by_cases hfew : s.opened = true ∧ s.failures.length < l.threshold
  · have hlt : (within l times now).length < l.threshold := h.failures ▸ hfew.2
    rw [if_pos hfew]
    refine ⟨⟨h.failures, h.past, fun hlen => absurd hlen (not_le.mpr hfew.2)⟩, ?_⟩
    exact ⟨fun ho => absurd ho (by simp), fun hle => absurd hlt (not_lt.mpr hle)⟩
  · rw [if_neg hfew]
    refine ⟨h, fun ho => ?_, fun hle => h.enough (h.failures ▸ hle)⟩
    rw [← h.failures]
    exact not_lt.mp fun hlt => hfew ⟨ho, hlt⟩

theorem Follows.recordFailure {later : Decimal} (h : Follows l times s last) (hnow : last ≤ now)
    (hlater : now ≤ later) : Follows l (times ++ [now]) (s.recordFailure l now later) later := by
  have hpruned :
      (({ s with failures := s.failures ++ [now] } :
        SlidingWindowBreaker).pruneOldFailures l later).failures
        = within l (times ++ [now]) later := by
    show (s.failures ++ [now]).filter _ = _
    unfold within
    rw [List.filter_append, List.filter_append, h.failures,
      within_within l times (hnow.trans hlater)]
    rfl
  have hpast : ∀ ts ∈ times ++ [now], ts ≤ later := by
    intro ts hts
    rcases List.mem_append.mp hts with hts | hts
    · exact (h.past ts hts).trans (hnow.trans hlater)
    · rw [List.mem_singleton.mp hts]
      exact hlater
  unfold SlidingWindowBreaker.recordFailure
  dsimp only
  split
  · exact ⟨hpruned, hpast, fun _ => rfl⟩
  · rename_i hnot
    refine ⟨hpruned, hpast, fun hlen => ?_⟩
    by_contra hclosed
    exact hnot ⟨hclosed, hlen⟩

/-! ### A history of calls -/

/-- When the failures of a history were recorded. -/
def failureTimes (calls : List BreakerCall) : List Decimal :=
  calls.filterMap BreakerCall.failureTime

/-- The clock of a history never goes back. -/
def Clocked (calls : List BreakerCall) : Prop :=
  (calls.flatMap BreakerCall.readings).Pairwise (· ≤ ·)

/-- **After every history the breaker follows the failures of it.** -/
theorem after_follows (l : BreakerLimits) {calls : List BreakerCall} (hclock : Clocked calls)
    {now : Decimal} (hnow : ∀ r ∈ calls.flatMap BreakerCall.readings, r ≤ now) :
    ∃ last ≤ now, Follows l (failureTimes calls) (after l calls) last := by
  induction calls using List.reverseRecOn generalizing now with
  | nil => exact ⟨now, le_rfl, follows_init l now⟩
  | append_singleton calls call ih =>
      unfold Clocked at hclock
      rw [List.flatMap_append, List.flatMap_singleton] at hclock hnow
      obtain ⟨hbefore, hself, hlater⟩ := List.pairwise_append.mp hclock
      have hafter : after l (calls ++ [call]) = (after l calls).step l call := by
        unfold after
        rw [List.foldl_append]
        rfl
      have htimes : failureTimes (calls ++ [call])
          = failureTimes calls ++ [call].filterMap BreakerCall.failureTime :=
        List.filterMap_append
      rw [hafter, htimes]
      cases call with
      | recordSuccess t =>
          have ht : t ≤ now := hnow t (List.mem_append_right _ List.mem_cons_self)
          obtain ⟨last, hle, hfollows⟩ := ih hbefore fun r hr => hlater r hr t List.mem_cons_self
          refine ⟨t, ht, ?_⟩
          rw [show [BreakerCall.recordSuccess t].filterMap BreakerCall.failureTime = [] from rfl,
            List.append_nil]
          exact (hfollows.prune hle).closeIfFew.1
      | recordFailure t u =>
          have hu : u ≤ now := hnow u (List.mem_append_right _ (by simp [BreakerCall.readings]))
          have htu : t ≤ u := (List.pairwise_cons.mp hself).1 u List.mem_cons_self
          obtain ⟨last, hle, hfollows⟩ := ih hbefore fun r hr => hlater r hr t List.mem_cons_self
          exact ⟨u, hu, hfollows.recordFailure hle htu⟩
      | isOpen t =>
          have ht : t ≤ now := hnow t (List.mem_append_right _ List.mem_cons_self)
          obtain ⟨last, hle, hfollows⟩ := ih hbefore fun r hr => hlater r hr t List.mem_cons_self
          refine ⟨t, ht, ?_⟩
          rw [show [BreakerCall.isOpen t].filterMap BreakerCall.failureTime = [] from rfl,
            List.append_nil]
          exact (hfollows.prune hle).closeIfFew.1

/-- **`isOpen` counts the failures of its window**, and nothing but the failures counts. -/
theorem isOpen_window (l : BreakerLimits) {calls : List BreakerCall} {t : Decimal}
    (hclock : Clocked (calls ++ [.isOpen t])) :
    (((after l calls).isOpen l t).1 = true ↔ l.threshold ≤
      ((failureTimes calls).filter fun ts => t - l.windowMs < ts ∧ ts ≤ t).length) ∧
      ∀ others, Clocked (others ++ [.isOpen t]) → failureTimes others = failureTimes calls →
        ((after l others).isOpen l t).1 = ((after l calls).isOpen l t).1 := by
  have hcounts : ∀ calls : List BreakerCall, Clocked (calls ++ [.isOpen t]) →
      (((after l calls).isOpen l t).1 = true ↔
        l.threshold ≤ (within l (failureTimes calls) t).length) ∧
      within l (failureTimes calls) t
        = (failureTimes calls).filter fun ts => t - l.windowMs < ts ∧ ts ≤ t := by
    intro calls hclock
    unfold Clocked at hclock
    rw [List.flatMap_append, List.flatMap_singleton] at hclock
    obtain ⟨hbefore, -, hlater⟩ := List.pairwise_append.mp hclock
    obtain ⟨last, hle, hfollows⟩ := after_follows l hbefore
      fun r hr => hlater r hr t List.mem_cons_self
    refine ⟨(hfollows.prune hle).closeIfFew.2, List.filter_congr fun ts hts => ?_⟩
    simp [(hfollows.past ts hts).trans hle]
  obtain ⟨hopen, hwindow⟩ := hcounts calls hclock
  refine ⟨hwindow ▸ hopen, fun others hothers htimes => ?_⟩
  have hopen' := (hcounts others hothers).1
  rw [htimes] at hopen'
  exact Bool.eq_iff_iff.mpr (hopen'.trans hopen.symm)

/-- Two failures open a breaker, and it closes when they are out of its window. -/
theorem isOpen_window_two :
    ∃ l, BreakerLimits.create (JsNumber.ofInt 2) (JsNumber.ofInt 1000) = .ok l ∧
      (((after l [.recordFailure 0 0, .recordFailure 0 0]).isOpen l 0).1 = true ↔ l.threshold ≤
        ([0, 0].filter fun ts : Decimal => 0 - l.windowMs < ts ∧ ts ≤ 0).length) := by
  refine ⟨⟨2, Decimal.ofInt 1000, by decide, ?_⟩, ?_, ?_⟩
  · rw [Decimal.lt_iff, Decimal.coe_ofInt]
    norm_num
  · exact BreakerLimits.create_eq_ok.mpr ⟨rfl, rfl⟩
  · refine (isOpen_window _ ?_).1
    unfold Clocked
    simp [BreakerCall.readings]

end SlidingWindowBreaker

end Kaiban
