/-
What a reservation leaves behind, in each of the ways it can end.

A reservation that is admitted adds its units to every scope.  One that is rejected gives
the scopes before the rejecting one their units back, so only that one is changed: the
limiter keeps the units of a rejected consume, as a penalty.

What a call adds is told by the account, which other users of the store do not touch.  When
nobody else uses the store, the counters change as the account does.
-/
import Mathlib.Data.Int.ConditionallyCompleteOrder
import Kaiban.Proofs.Reservation

open JsString

namespace Kaiban

variable {units : ℤ} {targets : List LimiterTarget} {st : LimiterStore}

/-! ### What a reservation has to do -/

/-- Each scope with what its counter comes to when the units are added. -/
def reached (units : ℤ) : List LimiterTarget → LimiterStore → List (LimiterTarget × ℤ)
  | [], _ => []
  | target :: rest, st =>
      (target, st.before.counters target.key + units) :: reached units rest st.before

/-- The counter is above its limit. -/
def Exceeds (r : LimiterTarget × ℤ) : Bool := decide (r.1.points < r.2)

/-- What each scope has left, and `⊤` for no scope. -/
def remainders (seen : List (LimiterTarget × ℤ)) : Set (WithTop ℤ) :=
  {x | ∃ r ∈ seen, x = ((r.1.points - r.2 : ℤ) : WithTop ℤ)}

/-- The part of its limit that each scope has used. -/
def utilizations (seen : List (LimiterTarget × ℤ)) : Set ℚ :=
  {x | ∃ r ∈ seen, x = (r.2 : ℚ) / r.1.points}

/-- What a reservation leaves, by how it ends. -/
structure Settles (targets : List LimiterTarget) (units : ℤ) (st : LimiterStore)
    (done : Except Thrown LimiterReservation × LimiterStore) : Prop where
  /-- All scopes were charged. -/
  all : ∀ res, done.1 = .ok res → res.ok = true → ∀ k,
    done.2.account k = st.account k + if k ∈ targets.map LimiterTarget.key then units else 0
  /-- The tightest of them is reported. -/
  tightest : ∀ res, done.1 = .ok res → res.ok = true →
    IsLeast (insert ⊤ (remainders (reached units targets st))) res.remaining ∧
    IsGreatest (insert 0 (utilizations (reached units targets st))) res.utilization
  /-- Nothing stays but the penalty of the scope that rejected. -/
  nothing : ∀ res, done.1 = .ok res → res.ok = false →
    ∃ r, (reached units targets st).find? Exceeds = some r ∧
      ∀ k, done.2.account k = st.account k + if k = r.1.key then units else 0
  /-- A reservation whose first call fails leaves nothing. -/
  failed : targets ≠ [] → st.error ≠ none → done.2.account = st.account

/-! ### Charging one scope does not show in another -/

namespace LimiterStore

theorem charge_before (st : LimiterStore) (k : LimiterKey) (units : ℤ) :
    (st.charge k units).before = st.before.charge k units := by
  obtain ⟨counters, fates, account⟩ := st
  cases fates with
  | nil => rfl
  | cons fate rest =>
      refine congrArg (LimiterStore.mk · rest _) (funext fun x => ?_)
      show (if x = k then counters x + units else counters x) + fate.others x
        = if x = k then counters x + fate.others x + units else counters x + fate.others x
      split
      · omega
      · rfl

theorem charge_counters_ne {k x : LimiterKey} (h : x ≠ k) (st : LimiterStore) (units : ℤ) :
    (st.charge k units).counters x = st.counters x := if_neg h

theorem charge_counters_self (st : LimiterStore) (k : LimiterKey) (units : ℤ) :
    (st.charge k units).counters k = st.counters k + units := if_pos rfl

end LimiterStore

theorem reached_charge {k : LimiterKey} (hk : k ∉ targets.map LimiterTarget.key)
    (st : LimiterStore) (amount : ℤ) :
    reached units targets (st.charge k amount) = reached units targets st := by
  induction targets generalizing st with
  | nil => rfl
  | cons target rest ih =>
      have hne : target.key ≠ k := fun h => hk (by simp [h])
      have hrest : k ∉ rest.map LimiterTarget.key := fun h => hk (by simp [h])
      unfold reached
      rw [LimiterStore.charge_before, LimiterStore.charge_counters_ne hne, ih hrest]

/-! ### Giving back -/

theorem compensate_returns {ts : List LimiterTarget} (hnodup : (ts.map LimiterTarget.key).Nodup)
    {st : LimiterStore} (hok : (compensate units ts st).1 = .ok ()) (k : LimiterKey) :
    (compensate units ts st).2.account k
      = st.account k - if k ∈ ts.map LimiterTarget.key then units else 0 := by
  induction ts generalizing st with
  | nil => simp [compensate]
  | cons target rest ih =>
      rw [List.map_cons, List.nodup_cons] at hnodup
      unfold compensate at hok ⊢
      split at hok
      · exact absurd hok (by simp)
      · rw [ih hnodup.2 hok]
        by_cases hk : k = target.key
        · subst hk
          rw [LimiterStore.charge_account_self, LimiterStore.before_account, if_neg hnodup.1,
            if_pos (by simp)]
          omega
        · rw [LimiterStore.charge_account_ne hk, LimiterStore.before_account]
          simp [hk]

/-! ### The loop -/

/-- What one consume of the loop finds. -/
theorem consumeOne_reached (target : LimiterTarget) (units : ℤ) (st : LimiterStore) :
    (∃ e, st.error = some e ∧ consumeOne target units st = (.error e, st.before)) ∨
      consumeOne target units st = (
        if target.points < st.before.counters target.key + units then .ok none
        else .ok (some ⟨target.points - (st.before.counters target.key + units),
          st.before.counters target.key + units⟩), st.before.charge target.key units) := by
  unfold consumeOne
  cases he : st.error with
  | some e => exact .inl ⟨e, rfl, rfl⟩
  | none =>
      refine .inr ?_
      dsimp only
      rw [LimiterStore.charge_counters_self]
      split
      · rfl
      · rename_i hwithin
        rw [max_eq_left (by omega)]

/-- What the loop has done when it ends, if it began with some scopes charged. -/
structure LoopSettles (targets consumed : List LimiterTarget) (units : ℤ) (remaining : WithTop ℤ)
    (utilization : ℚ) (st : LimiterStore) (account : LimiterKey → ℤ)
    (done : Except Thrown LimiterReservation × LimiterStore) : Prop where
  all : ∀ res, done.1 = .ok res → res.ok = true → ∀ k, done.2.account k
    = account k + if k ∈ (consumed ++ targets).map LimiterTarget.key then units else 0
  tightest : ∀ res, done.1 = .ok res → res.ok = true →
    IsLeast (insert remaining (remainders (reached units targets st))) res.remaining ∧
    IsGreatest (insert utilization (utilizations (reached units targets st))) res.utilization
  nothing : ∀ res, done.1 = .ok res → res.ok = false →
    ∃ r, (reached units targets st).find? Exceeds = some r ∧
      ∀ k, done.2.account k = account k + if k = r.1.key then units else 0

theorem isLeast_insert_min {α : Type*} [LinearOrder α] {s : Set α} {a b x : α}
    (h : IsLeast (insert (min a b) s) x) : IsLeast (insert a (insert b s)) x := by
  refine ⟨?_, ?_⟩
  · rcases h.1 with heq | hmem
    · rcases min_choice a b with hmin | hmin
      · exact .inl (heq.trans hmin)
      · exact .inr (.inl (heq.trans hmin))
    · exact .inr (.inr hmem)
  · rintro y (rfl | rfl | hy)
    · exact (h.2 (.inl rfl)).trans (min_le_left ..)
    · exact (h.2 (.inl rfl)).trans (min_le_right ..)
    · exact h.2 (.inr hy)

theorem isGreatest_insert_max {α : Type*} [LinearOrder α] {s : Set α} {a b x : α}
    (h : IsGreatest (insert (max a b) s) x) : IsGreatest (insert a (insert b s)) x := by
  refine ⟨?_, ?_⟩
  · rcases h.1 with heq | hmem
    · rcases max_choice a b with hmax | hmax
      · exact .inl (heq.trans hmax)
      · exact .inr (.inl (heq.trans hmax))
    · exact .inr (.inr hmem)
  · rintro y (rfl | rfl | hy)
    · exact (le_max_left ..).trans (h.2 (.inl rfl))
    · exact (le_max_right ..).trans (h.2 (.inl rfl))
    · exact h.2 (.inr hy)

theorem remainders_cons (r : LimiterTarget × ℤ) (seen : List (LimiterTarget × ℤ)) :
    remainders (r :: seen) = insert ((r.1.points - r.2 : ℤ) : WithTop ℤ) (remainders seen) := by
  ext x
  simp [remainders]

theorem utilizations_cons (r : LimiterTarget × ℤ) (seen : List (LimiterTarget × ℤ)) :
    utilizations (r :: seen) = insert ((r.2 : ℚ) / r.1.points) (utilizations seen) := by
  ext x
  simp [utilizations]

/-- A scope that rejects: those charged before it get their units back. -/
theorem rejection_settles {a : LimiterKey → ℤ} {target : LimiterTarget}
    {rest consumed : List LimiterTarget} (remaining : WithTop ℤ) (utilization : ℚ)
    (hnodup : (consumed.map LimiterTarget.key).Nodup)
    (hfresh : target.key ∉ consumed.map LimiterTarget.key)
    (hcharged : ∀ k, (st.before.charge target.key units).account k
      = a k + if k ∈ (consumed ++ [target]).map LimiterTarget.key then units else 0)
    (hexceeds : target.points < st.before.counters target.key + units) :
    LoopSettles (target :: rest) consumed units remaining utilization st a
      (match compensate units consumed (st.before.charge target.key units) with
      | (.error e, st) => (.error e, st)
      | (.ok (), st) => (.ok .rejected, st)) := by
  have hback : (compensate units consumed (st.before.charge target.key units)).1 = .ok () →
      ∀ k : LimiterKey, _ := compensate_returns hnodup
  generalize compensate units consumed (st.before.charge target.key units) = back at hback
  obtain ⟨answer, after⟩ := back
  cases answer with
  | error e =>
      exact ⟨fun res hres => absurd hres (by simp), fun res hres => absurd hres (by simp),
        fun res hres => absurd hres (by simp)⟩
  | ok u =>
      refine ⟨fun res hres hyes => ?_, fun res hres hyes => ?_, fun res _ _ => ?_⟩
      · obtain rfl := Except.ok.inj hres
        exact absurd hyes (by simp [LimiterReservation.rejected])
      · obtain rfl := Except.ok.inj hres
        exact absurd hyes (by simp [LimiterReservation.rejected])
      · refine ⟨(target, st.before.counters target.key + units), ?_, fun k => ?_⟩
        · rw [reached, List.find?_cons_of_pos (by simp [Exceeds, hexceeds])]
        · have hkept : after.account k = _ := hback rfl k
          refine hkept.trans ?_
          rw [hcharged k]
          by_cases hk : k = target.key
          · subst hk
            rw [if_pos (by simp), if_neg hfresh, if_pos rfl]
            omega
          · rw [if_neg hk]
            simp [hk]

/-- **What the loop has done when it ends.**  The scopes it has charged stay charged unless
one of the others rejects. -/
theorem consumeTargets_settles {a : LimiterKey → ℤ} :
    ∀ (consumed : List LimiterTarget) (remaining : WithTop ℤ) (utilization : ℚ)
      (st : LimiterStore), ((consumed ++ targets).map LimiterTarget.key).Nodup →
      (∀ k, st.account k
        = a k + if k ∈ consumed.map LimiterTarget.key then units else 0) →
      LoopSettles targets consumed units remaining utilization st a
        (consumeTargets units targets consumed remaining utilization st) := by
  induction targets with
  | nil =>
      intro consumed remaining utilization st hnodup hheld
      refine ⟨fun res hres _ k => ?_, fun res hres _ => ?_, fun res hres hno => ?_⟩
      · rw [List.append_nil]
        exact hheld k
      · obtain rfl := Except.ok.inj hres
        simp [reached, remainders, utilizations]
      · obtain rfl := Except.ok.inj hres
        exact absurd hno (by simp)
  | cons target rest ih =>
      intro consumed remaining utilization st hnodup hheld
      have hfresh : target.key ∉ consumed.map LimiterTarget.key := by
        intro hmem
        rw [List.map_append, List.map_cons] at hnodup
        exact (List.nodup_append.mp hnodup).2.2 _ hmem _ (by simp) rfl
      have hcons : (target.key :: rest.map LimiterTarget.key).Nodup := by
        rw [List.map_append, List.map_cons] at hnodup
        exact (List.nodup_append.mp hnodup).2.1
      have hcharged : ∀ k, (st.before.charge target.key units).account k
          = a k + if k ∈ (consumed ++ [target]).map LimiterTarget.key then units else 0 := by
        intro k
        by_cases hk : k = target.key
        · subst hk
          rw [LimiterStore.charge_account_self, LimiterStore.before_account, hheld,
            if_neg hfresh, if_pos (by simp), Int.add_zero]
        · rw [LimiterStore.charge_account_ne hk, LimiterStore.before_account, hheld]
          simp [hk]
      have hrest : reached units rest (st.before.charge target.key units)
          = reached units rest st.before := reached_charge (List.nodup_cons.mp hcons).1 ..
      rw [consumeTargets]
      rcases consumeOne_reached target units st with ⟨e, -, heq⟩ | heq
      · rw [heq]
        exact ⟨fun res hres => absurd hres (by simp), fun res hres => absurd hres (by simp),
          fun res hres => absurd hres (by simp)⟩
      · rw [heq]
        by_cases hexceeds : target.points < st.before.counters target.key + units
        · rw [if_pos hexceeds]
          dsimp only
          refine rejection_settles remaining utilization ?_ hfresh hcharged hexceeds
          rw [List.map_append] at hnodup
          exact (List.nodup_append.mp hnodup).1
        · rw [if_neg hexceeds]
          dsimp only
          have hnext := ih (consumed ++ [target])
            (min remaining ((target.points - (st.before.counters target.key + units) : ℤ)))
            (max utilization
              (((st.before.counters target.key + units : ℤ) : ℚ) / target.points))
            (st.before.charge target.key units) (by simpa using hnodup) hcharged
          refine ⟨fun res hres hyes k => ?_, fun res hres hyes => ?_, fun res hres hno => ?_⟩
          · rw [hnext.all res hres hyes k, List.append_assoc, List.singleton_append]
          · obtain ⟨hleast, hgreatest⟩ := hnext.tightest res hres hyes
            rw [hrest] at hleast hgreatest
            rw [reached, remainders_cons, utilizations_cons]
            exact ⟨isLeast_insert_min hleast, isGreatest_insert_max hgreatest⟩
          · obtain ⟨r, hfind, hkept⟩ := hnext.nothing res hres hno
            rw [hrest] at hfind
            refine ⟨r, ?_, hkept⟩
            rw [reached, List.find?_cons_of_neg (by simpa [Exceeds] using hexceeds)]
            exact hfind

/-! ### A reservation as a whole -/

theorem consumeAll_settles (hnodup : (targets.map LimiterTarget.key).Nodup) :
    Settles targets units st (consumeAll targets units st) := by
  unfold consumeAll
  by_cases hnil : targets = []
  · subst hnil
    rw [if_pos rfl]
    refine ⟨fun res hres _ k => ?_, fun res hres _ => ?_, fun res hres hno => ?_,
      fun h => absurd rfl h⟩
    · simp
    · obtain rfl := Except.ok.inj hres
      simp [reached, remainders, utilizations, LimiterReservation.unlimited]
    · obtain rfl := Except.ok.inj hres
      exact absurd hno (by simp [LimiterReservation.unlimited])
  · rw [if_neg hnil]
    have h : LoopSettles targets [] units ⊤ 0 st st.account
        (consumeTargets units targets [] ⊤ 0 st) :=
      consumeTargets_settles [] ⊤ 0 st hnodup (by simp)
    refine ⟨h.all, h.tightest, h.nothing, fun _ hfails => ?_⟩
    obtain ⟨target, rest, rfl⟩ := List.exists_cons_of_ne_nil hnil
    rw [consumeTargets_store]
    rcases consumeOne_account target units st with ⟨e, -, heq⟩ | ⟨hnone, -⟩
    · rw [heq]
      exact LimiterStore.before_account st
    · exact absurd hnone hfails

/-- **What a reservation leaves behind.**  An admitted one has charged every scope, a
rejected one leaves the penalty of the scope that rejected and nothing else, and what an
admitted one has charged is given back whole by a release that returns. -/
theorem reservation_settles (cfg : EconomicsConfig) (scope : BudgetScope) (units : ℤ)
    (st : LimiterStore) :
    Settles (costTargets cfg scope) units st (reserveCost cfg scope units st) ∧
    Settles (rateTargets cfg scope) 1 st (consumeRequest cfg scope st) ∧
    ∀ res, (reserveCost cfg scope units st).1 = .ok res → res.ok = true →
      (releaseCost cfg scope units (reserveCost cfg scope units st).2).1 = .ok () →
      (releaseCost cfg scope units (reserveCost cfg scope units st).2).2.account = st.account := by
  have hnodup : ((costTargets cfg scope).map LimiterTarget.key).Nodup := buildTargets_nodup ..
  have hcost : Settles (costTargets cfg scope) units st (reserveCost cfg scope units st) :=
    consumeAll_settles hnodup
  refine ⟨hcost, consumeAll_settles (buildTargets_nodup ..), fun res hres hyes hback => ?_⟩
  funext k
  unfold releaseCost at hback ⊢
  rw [compensate_returns hnodup hback, hcost.all res hres hyes k]
  omega

/-! ### The counters of a store of one's own -/

/-- The counters changed as the account did, and nobody else will interfere. -/
structure Follows (st st' : LimiterStore) : Prop where
  counters : ∀ k, st'.counters k - st.counters k = st'.account k - st.account k
  alone : ∀ fate ∈ st'.fates, fate.others = 0

namespace Follows

theorem refl (h : ∀ fate ∈ st.fates, fate.others = 0) : Follows st st := ⟨fun _ => by omega, h⟩

theorem before {st' : LimiterStore} (h : Follows st st') : Follows st st'.before := by
  obtain ⟨hcounters, halone⟩ := h
  obtain ⟨counters, fates, account⟩ := st'
  cases fates with
  | nil => exact ⟨hcounters, halone⟩
  | cons fate rest =>
      refine ⟨fun k => ?_, fun x hx => halone x (List.mem_cons_of_mem _ hx)⟩
      have hnone : fate.others k = 0 := congrFun (halone fate (by simp)) k
      have hk := hcounters k
      show counters k + fate.others k - st.counters k = account k - st.account k
      dsimp only at hk
      omega

theorem charge {st' : LimiterStore} (h : Follows st st') (key : LimiterKey) (units : ℤ) :
    Follows st (st'.charge key units) := by
  refine ⟨fun k => ?_, h.alone⟩
  have hk := h.counters k
  by_cases hkey : k = key
  · subst hkey
    rw [LimiterStore.charge_counters_self, LimiterStore.charge_account_self]
    omega
  · rw [LimiterStore.charge_counters_ne hkey, LimiterStore.charge_account_ne hkey]
    exact hk

theorem compensate {ts : List LimiterTarget} {st' : LimiterStore} (h : Follows st st') :
    Follows st (compensate units ts st').2 := by
  induction ts generalizing st' with
  | nil => exact h
  | cons target rest ih =>
      unfold Kaiban.compensate
      split
      · exact h.before
      · exact ih (h.before.charge _ _)

theorem consumeTargets :
    ∀ (consumed : List LimiterTarget) (remaining : WithTop ℤ) (utilization : ℚ)
      (st' : LimiterStore), Follows st st' →
      Follows st (consumeTargets units targets consumed remaining utilization st').2 := by
  induction targets with
  | nil => intro consumed remaining utilization st' h; exact h
  | cons target rest ih =>
      intro consumed remaining utilization st' h
      rw [consumeTargets_store]
      rcases consumeOne_account target units st' with ⟨e, -, heq⟩ | ⟨-, res, heq⟩
      · rw [heq]
        exact h.before
      · rw [heq]
        cases res with
        | none => exact (h.before.charge _ _).compensate
        | some res => exact ih _ _ _ _ (h.before.charge _ _)

end Follows

/-- **While nobody else uses the store, the counters change as the account does.** -/
theorem reserveCost_follows (cfg : EconomicsConfig) (scope : BudgetScope) (units : ℤ)
    (halone : ∀ fate ∈ st.fates, fate.others = 0) :
    Follows st (reserveCost cfg scope units st).2 ∧ Follows st (consumeRequest cfg scope st).2 ∧
      Follows st (releaseCost cfg scope units (reserveCost cfg scope units st).2).2 := by
  have hall : ∀ (ts : List LimiterTarget) (amount : ℤ),
      Follows st (consumeAll ts amount st).2 := by
    intro ts amount
    unfold consumeAll
    split
    · exact .refl halone
    · exact .consumeTargets _ _ _ _ (.refl halone)
  exact ⟨hall _ _, hall _ _, (hall _ _).compensate⟩

/-! ### Two reservations -/

/-- A limit for all and a smaller one for each tenant. -/
def tenantBudget : EconomicsConfig := ⟨true, 0, 50, 1000, 0⟩

/-- A store that nobody has used yet. -/
def unusedStore : LimiterStore := ⟨fun _ => 0, [], fun _ => 0⟩

theorem reservation_settles_tenant :
    (releaseCost tenantBudget ⟨some (js "t1"), none⟩ 40
      (reserveCost tenantBudget ⟨some (js "t1"), none⟩ 40 unusedStore).2).2.account
      = unusedStore.account :=
  (reservation_settles tenantBudget ⟨some (js "t1"), none⟩ 40 unusedStore).2.2 _ rfl rfl rfl

/-- A tenant that asks for too much keeps the units it was refused. -/
theorem rejected_units_stay :
    (∃ res, (reserveCost tenantBudget ⟨some (js "t1"), none⟩ 80 unusedStore).1 = .ok res ∧
      res.ok = false) ∧
    (reserveCost tenantBudget ⟨some (js "t1"), none⟩ 80 unusedStore).2.counters
        ⟨.cost, .tenant, js "t1"⟩
      ≠ unusedStore.counters ⟨.cost, .tenant, js "t1"⟩ :=
  ⟨⟨_, rfl, rfl⟩, by decide⟩

end Kaiban
